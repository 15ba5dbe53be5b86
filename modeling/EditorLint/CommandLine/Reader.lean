import EditorLint.CommandLine.Word

/-!
Reading a command line. Flags are acted on from left to right, and the first thing wrong ends it;
words that nothing was made of are complained about at the end.
-/

namespace EditorLint.CommandLine

/-- What is wrong with a command line. -/
inductive UsageError where
  | ambiguous (ambiguity : Ambiguity)
  | noValue (flag : Flag)
  | needless (flag : Flag) (value : String)
  | badNumber (flag : Flag) (value : String)
  | badChoice (flag : Flag) (value : String) (choices : List String)
  | unrecognized (words : List String)
  deriving DecidableEq, Repr

def UsageError.text : UsageError → String
  | .ambiguous ambiguity =>
    "ambiguous option: " ++ ambiguity.word ++ " could match "
      ++ Text.joined ", " (ambiguity.candidates.map Flag.long)
  | .noValue flag => "argument " ++ flag.name ++ ": expected one argument"
  | .needless flag value =>
    "argument " ++ flag.name ++ ": ignored explicit argument " ++ Text.quoted value
  | .badNumber flag value =>
    "argument " ++ flag.name ++ ": invalid int value: " ++ Text.quoted value
  | .badChoice flag value choices =>
    "argument " ++ flag.name ++ ": invalid choice: " ++ Text.quoted value ++ " (choose from "
      ++ Text.joined ", " (choices.map Text.quoted) ++ ")"
  | .unrecognized words => "unrecognized arguments: " ++ Text.joined " " words

/-- Why reading stops before the end. -/
inductive Stop where
  | help
  | error (error : UsageError)
  deriving DecidableEq, Repr

/-- Sets the value of a flag that takes one. -/
def Draft.set (draft : Draft) (flag : Flag) (value : String) : Except Stop Draft :=
  match flag with
  | .transport =>
    match Transport.all.find? fun t => t.text == value with
    | some transport => .ok { draft with transport }
    | none => .error (.error (.badChoice flag value (Transport.all.map Transport.text)))
  | .host => .ok { draft with host := value }
  | .port =>
    match Text.integer? value with
    | some port => .ok { draft with port }
    | none => .error (.error (.badNumber flag value))
  | .logLevel =>
    match Log.Level.ofText? value with
    | some level => .ok { draft with logLevel := some level }
    | none => .error (.error (.badChoice flag value (Log.Level.all.map Log.Level.text)))
  | .logFile => .ok { draft with logFile := some (normalPath value) }
  | .toolPath => .ok { draft with toolPath := value }
  | .toolArgument => .ok { draft with toolArguments := draft.toolArguments ++ [value] }
  | .help | .debug => .ok draft

/-- Acts on a flag that takes no value. -/
def Draft.switch (draft : Draft) (flag : Flag) : Except Stop Draft :=
  match flag with
  | .help => .error .help
  | .debug => .ok { draft with debug := true }
  | _ => .ok draft

/-- The flags that short flags written together stand for, and the rest that is none, as a word. -/
def shortGroup (flag : Flag) : List Char → Except UsageError (List Flag × List String)
  | [] => .ok ([flag], [])
  | letter :: rest =>
    if letter = '-' then .error (.needless flag (String.ofList (letter :: rest)))
    else
      match Flag.ofLetter? letter with
      | none => .ok ([flag], [String.ofList ('-' :: letter :: rest)])
      | some next =>
        match rest with
        | '=' :: value => .error (.needless next (String.ofList value))
        | rest => do
          let (flags, words) ← shortGroup next rest
          return (flag :: flags, words)

/-- What has been read: the draft, and the words that nothing was made of. -/
structure Reading where
  draft : Draft
  leftover : List String
  deriving DecidableEq, Repr

/-- Acts on a flag without a value, given what is attached to it. -/
def Reading.switch (reading : Reading) (flag : Flag) : Attached → Except Stop Reading
  | .none => do
    let draft ← reading.draft.switch flag
    return { reading with draft }
  | .assigned value => .error (.error (.needless flag (String.ofList value)))
  | .joined rest =>
    match shortGroup flag rest with
    | .error error => .error (.error error)
    | .ok (flags, words) => do
      let draft ← flags.foldlM Draft.switch reading.draft
      return { draft, leftover := reading.leftover ++ words }

/-- Leaves a word over. -/
def Reading.leave (reading : Reading) (word : String) : Reading :=
  { reading with leftover := reading.leftover ++ [word] }

/-- Acts on words from left to right. A flag that takes a value and has none attached takes the
next word, which must be a plain one before the separator. -/
def Reading.read (reading : Reading) : List Word → Except Stop Reading
  | [] => .ok reading
  | .plain word :: rest => (reading.leave word).read rest
  | .unknown word :: rest => (reading.leave word).read rest
  | .separator :: rest => (reading.leave "--").read rest
  | .option flag attached :: rest =>
    if flag.takesValue then
      match attached, rest with
      | .assigned value, rest | .joined value, rest => do
        let draft ← reading.draft.set flag (String.ofList value)
        { reading with draft }.read rest
      | .none, .plain word :: rest => do
        let draft ← reading.draft.set flag word
        { reading with draft }.read rest
      | .none, _ => .error (.error (.noValue flag))
    else do
      let reading ← reading.switch flag attached
      reading.read rest

/-- The options of a command line. -/
def Options.ofWords (words : List String) : Except Stop Options :=
  match Word.ofWords words with
  | .error ambiguity => .error (.error (.ambiguous ambiguity))
  | .ok words =>
    match Reading.read { draft := {}, leftover := [] } words with
    | .error stop => .error stop
    | .ok reading =>
      if reading.leftover.isEmpty then .ok reading.draft.options
      else .error (.error (.unrecognized reading.leftover))

end EditorLint.CommandLine
