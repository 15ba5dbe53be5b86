import EditorLint.Log.Record

/-!
Shielded handlers. An ordinary failure of a handler is logged and a default takes the place of its
result; any other failure passes.
-/

namespace EditorLint.Handler

/-- The record of a failed handler. -/
def failureRecord (logger feature : String) (failure : Failure) : Log.Record :=
  Log.failed logger ("Error in " ++ feature ++ " handler") failure

/-- The outcome of a handler of a feature, and the records that it leaves in the log. -/
def shield {α : Type} (logger feature : String) (default : α) (outcome : Except Failure α) :
    List Log.Record × Except Failure α :=
  match outcome with
  | .ok result => ([], .ok result)
  | .error failure =>
    if failure.isOrdinary then ([failureRecord logger feature failure], .ok default)
    else ([], .error failure)

end EditorLint.Handler
