/-!
# Arguments of a command line

A command has options, which stand for something by themselves or with the value behind them, and
words, which are all other arguments. An option with a long name takes its value from behind an
equals sign or from the next argument; short names of one letter may be joined, and the value may
follow at once. Behind two dashes all arguments are words.
-/

namespace CallFlow.CommandLine

/-- An option: its names and whether a value belongs to it. -/
structure OptionForm where
  long : String
  short : Option Char
  takesValue : Bool
  deriving DecidableEq, Repr

/-- The options of an argument list by their long names, with the values of those that have one,
and the words, both in order. -/
structure Arguments where
  options : List (String × Option String)
  words : List String
  deriving DecidableEq, Repr

namespace Arguments

/-- No arguments. -/
def empty : Arguments := ⟨[], []⟩

/-- Arguments with an option in front. -/
def withOption (a : Arguments) (form : OptionForm) (value : Option String) : Arguments :=
  { a with options := (form.long, value) :: a.options }

/-- Arguments with a word in front. -/
def withWord (a : Arguments) (word : String) : Arguments := { a with words := word :: a.words }

/-- Whether an option was given. -/
def has (a : Arguments) (long : String) : Bool := a.options.any (·.1 = long)

/-- The values that were given to an option, in order. -/
def values (a : Arguments) (long : String) : List String :=
  (a.options.filter (·.1 = long)).filterMap Prod.snd

/-- The last value that was given to an option. -/
def value? (a : Arguments) (long : String) : Option String := (a.values long).getLast?

end Arguments

/-- What an argument holds for the options of a command. -/
inductive Piece where
  /-- Options; the last one may lack its value, which is in the next argument. -/
  | given (options : List (OptionForm × Option String)) (open? : Option OptionForm)
  | unknown

/-- Splits a run of short names: flags up to an option whose value is the rest of the run. -/
def splitShort (forms : List OptionForm) : List Char → Piece
  | [] => .given [] none
  | c :: rest =>
    match forms.find? (·.short = some c) with
    | none => .unknown
    | some form =>
      if form.takesValue then
        if rest.isEmpty then .given [] (some form)
        else .given [(form, some (String.ofList rest))] none
      else
        match splitShort forms rest with
        | .given options open? => .given ((form, none) :: options) open?
        | .unknown => .unknown

/-- Splits an argument that starts with a dash. A value behind the equals sign belongs to an option
that takes one. -/
def splitPiece (forms : List OptionForm) (arg : String) : Piece :=
  let cs := arg.toList
  let name := String.ofList (cs.takeWhile (· ≠ '='))
  match forms.find? (·.long = name) with
  | some form =>
    match cs.dropWhile (· ≠ '=') with
    | [] => if form.takesValue then .given [] (some form) else .given [(form, none)] none
    | _ :: value =>
      if form.takesValue then .given [(form, some (String.ofList value))] none else .unknown
  | none => if "--".toList.isPrefixOf cs then .unknown else splitShort forms (cs.drop 1)

/-- Reads arguments, unless one is no option of the command or an option lacks its value. With
`mixed`, options may follow words; else all arguments from the first word on are words. -/
def readArguments? (forms : List OptionForm) (mixed : Bool) : List String → Option Arguments
  | [] => some .empty
  | arg :: rest =>
    if arg = "--" then some ⟨[], rest⟩
    else if arg.toList.head? = some '-' && arg ≠ "-" then
      let add (options : List (OptionForm × Option String)) (a : Arguments) : Arguments :=
        options.foldr (fun o a => a.withOption o.1 o.2) a
      match splitPiece forms arg, rest with
      | .given options none, rest => (readArguments? forms mixed rest).map (add options)
      | .given options (some form), value :: rest =>
        (readArguments? forms mixed rest).map fun a => add options (a.withOption form (some value))
      | .given _ (some _), [] => none
      | .unknown, _ => none
    else if mixed then (readArguments? forms mixed rest).map (·.withWord arg)
    else some ⟨[], arg :: rest⟩

example : readArguments? [⟨"--input", some 'i', true⟩, ⟨"--verbose", some 'v', false⟩] true
    ["-vi5", "f", "--input=", "-i", "-v", "--", "-x"] =
      some ⟨[("--verbose", none), ("--input", some "5"), ("--input", some ""),
        ("--input", some "-v")], ["f", "-x"]⟩ := by decide +kernel

end CallFlow.CommandLine
