/-!
# Options of a command line

An option is given by its long name or by its letter. A value follows as the next argument or
stands in the same one, after an optional `=` behind a letter; letters of flags may be joined.
Each option is given at most once, and there are no other arguments.
-/

namespace Provenance

/-- An option of a command. -/
structure Opt where
  name : String
  /-- The letter after `-`, if it has one. -/
  letter : Option Char
  takesValue : Bool
  mayBeEmpty : Bool
  deriving DecidableEq, Repr

/-- An option that is given, with its value if it takes one. -/
structure Setting where
  name : String
  value : String
  deriving DecidableEq, Repr

namespace Opt

/-- An option whose value is the path of a file or directory. -/
def path (name : String) (letter : Option Char) : Opt := ⟨name, letter, true, false⟩

def text (name : String) (letter : Option Char) : Opt := ⟨name, letter, true, true⟩

def flag (name : String) (letter : Option Char) : Opt := ⟨name, letter, false, true⟩

/-- The setting of an option to a value that it may have. -/
def setTo? (opt : Opt) (value : List Char) : Option Setting :=
  if value.isEmpty && !opt.mayBeEmpty then none else some ⟨opt.name, String.ofList value⟩

end Opt

/-- Whether an argument can be the value of the option before it. -/
def isValue (arg : String) : Bool := arg == "-" || arg.toList.head? != some '-'

/-- The settings of joined letters, and the option among them whose value is still to come. -/
def readLetters (opts : List Opt) : List Char → Option (List Setting × Option Opt)
  | [] => some ([], none)
  | c :: rest =>
    match opts.find? fun opt => opt.letter == some c with
    | none => none
    | some opt =>
      if opt.takesValue then
        match rest with
        | [] => some ([], some opt)
        | '=' :: value => (opt.setTo? value).map fun s => ([s], none)
        | value => (opt.setTo? value).map fun s => ([s], none)
      else
        (readLetters opts rest).map fun (settings, pending) =>
          (⟨opt.name, ""⟩ :: settings, pending)

/-- The setting that a long name makes, or the option whose value is still to come. -/
def readName (opts : List Opt) (arg : List Char) : Option (List Setting × Option Opt) :=
  let name := arg.takeWhile (· != '=')
  match opts.find? fun opt => opt.name.toList == name with
  | none => none
  | some opt =>
    match arg.dropWhile (· != '=') with
    | [] => if opt.takesValue then some ([], some opt) else some ([⟨opt.name, ""⟩], none)
    | _ :: value =>
      if opt.takesValue then (opt.setTo? value).map fun s => ([s], none) else none

/-- The settings that an argument makes, and the option whose value is still to come. -/
def readArgument (opts : List Opt) (arg : String) : Option (List Setting × Option Opt) :=
  match arg.toList with
  | '-' :: '-' :: name => readName opts name
  | '-' :: letter :: rest => readLetters opts (letter :: rest)
  | _ => none

/-- The settings that arguments make. A final `--` says that no arguments follow. -/
def readArguments (opts : List Opt) : List String → Option (List Setting)
  | [] => some []
  | ["--"] => some []
  | arg :: rest =>
    match readArgument opts arg, rest with
    | none, _ => none
    | some (settings, none), rest => (readArguments opts rest).map (settings ++ ·)
    | some (_, some _), [] => none
    | some (settings, some opt), value :: rest =>
      if isValue value then
        match opt.setTo? value.toList, readArguments opts rest with
        | some setting, some further => some (settings ++ setting :: further)
        | _, _ => none
      else none

/-- The settings that arguments make, if none is made twice. -/
def readSettings (opts : List Opt) (args : List String) : Option (List Setting) :=
  (readArguments opts args).filter fun settings => (settings.map Setting.name).Nodup

def valueOf? (name : String) (settings : List Setting) : Option String :=
  (settings.find? fun s => s.name == name).map Setting.value

def isGiven (name : String) (settings : List Setting) : Bool := (valueOf? name settings).isSome

end Provenance
