import SourceDesk.Text.Utf8

/-!
The switches of the command line: what each is called, and which of them take a value.
-/

namespace SourceDesk.CommandLine

/-- Switches that ask for a text about the program, and for nothing else. -/
inductive Notice where
  | help
  | version
  deriving DecidableEq, Repr

/-- Switches that are given or not. -/
inductive Toggle where
  | listLanguages
  | quiet
  | verbose
  deriving DecidableEq, Repr

/-- Switches that take a value. -/
inductive Slot where
  | source
  | translator
  | translatorArg
  | language
  | namespaceHint
  | output
  | config
  deriving DecidableEq, Repr

/-- Whether any word at all can be the value, even one that looks like a switch. -/
def Slot.takesAnyWord : Slot → Bool
  | .translatorArg => true
  | _ => false

inductive Switch where
  | notice (n : Notice)
  | toggle (t : Toggle)
  | slot (s : Slot)
  deriving DecidableEq, Repr

namespace Switch

/-- Every switch, in the order in which they are explained. -/
def all : List Switch :=
  [.slot .source, .slot .translator, .slot .translatorArg, .slot .language, .slot .namespaceHint,
   .slot .output, .slot .config, .toggle .listLanguages, .toggle .quiet, .toggle .verbose,
   .notice .help, .notice .version]

/-- The name, which follows two hyphens. -/
def name : Switch → String
  | .slot .source => "source"
  | .slot .translator => "translator"
  | .slot .translatorArg => "translator-arg"
  | .slot .language => "language"
  | .slot .namespaceHint => "namespace"
  | .slot .output => "output"
  | .slot .config => "config"
  | .toggle .listLanguages => "list-languages"
  | .toggle .quiet => "quiet"
  | .toggle .verbose => "verbose"
  | .notice .help => "help"
  | .notice .version => "version"

/-- The letter, which follows one hyphen. -/
def letter? : Switch → Option Char
  | .slot .source => some 's'
  | .slot .translator => some 't'
  | .slot .translatorArg => none
  | .slot .language => some 'l'
  | .slot .namespaceHint => some 'n'
  | .slot .output => some 'o'
  | .slot .config => some 'c'
  | .toggle .listLanguages => none
  | .toggle .quiet => none
  | .toggle .verbose => some 'v'
  | .notice .help => some 'h'
  | .notice .version => some 'V'

/-- The switch with a name. -/
def ofName? (bytes : Bytes) : Option Switch := all.find? fun s => Utf8.encode s.name = bytes

/-- The switch with a letter. -/
def ofLetter? (b : UInt8) : Option Switch :=
  all.find? fun s => s.letter?.any fun c => String.utf8EncodeChar c = [b]

end Switch

end SourceDesk.CommandLine
