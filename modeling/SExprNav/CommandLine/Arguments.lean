import SExprNav.Fault

/-!
# The arguments of the command line

The command line names a file and commands, and takes options anywhere between them: a position, the
wish for more messages, the wish for help. Options with two dashes may be abbreviated; those with one
dash are letters and may be written together. Versions of the argument reader differ in what they make
of a letter that is no option, and of an equals sign (`Lettering`).

The words are read twice. The first reading takes the options out and keeps the rest in order. The
second reading shares the rest between the file and the commands; it sees options, too, but only if
the first one has been told to see none. `--` tells a reading that no options follow. The first
reading drops a `--` that no argument precedes, and keeps any other one for the second reading.
-/

namespace SExprNav

/-- What the command line asks for. -/
structure Arguments where
  file : String
  commands : List String
  /-- Where the cursor starts. -/
  position : Int
  /-- Whether events of every level are shown. -/
  verbose : Bool
deriving DecidableEq, Repr

namespace Arguments

/-- The end of the program when the arguments cannot be understood. -/
def misuse : Fault := .exit 2

/-- An option. -/
inductive Flag where
  | help | position | verbose
deriving DecidableEq, Repr

namespace Flag

/-- The word for an option, after two dashes. -/
def word : Flag → List Char
  | .help => "help".toList
  | .position => "position".toList
  | .verbose => "verbose".toList

/-- The letter for an option, after one dash. -/
def ofLetter? : Char → Option Flag
  | 'h' => some .help
  | 'v' => some .verbose
  | _ => none

/-- The options whose words start with a text. -/
def abbreviatedBy (cs : List Char) : List Flag :=
  [.help, .position, .verbose].filter fun f => cs.isPrefixOf f.word

end Flag

/-- A word of the command line. -/
inductive Word where
  /-- A word that is no option. -/
  | argument (s : String)
  /-- An option with two dashes, and the text after its equals sign if there is one. -/
  | long (flag : Flag) (value : Option String)
  /-- Options with one dash: the letters after it, the first of which is an option. -/
  | letters (cs : List Char)
  /-- A word that looks like an option and is none. -/
  | unknown (s : String)
  /-- The word that says that no options follow. -/
  | endOfOptions
deriving DecidableEq, Repr

/-- Whether a text consists of digits, and at least one. -/
def isDigits (cs : List Char) : Bool :=
  !cs.isEmpty && cs.all fun c => (Text.decimalValue? c).isSome

/-- Whether what stands after a dash makes it a negative number: digits, or digits with a point before
the last of them. A line end after the number does not matter. -/
def isMagnitude (cs : List Char) : Bool :=
  let cs := if cs.getLast? = some '\n' then cs.dropLast else cs
  isDigits cs ||
    match cs.dropWhile fun c => (Text.decimalValue? c).isSome with
    | '.' :: ds => isDigits ds
    | _ => false

/-- A word that starts with a dash and names no option: a negative number and a word with a space in
it are arguments. -/
def Word.ofOther (s : String) : Word :=
  if isMagnitude s.toList.tail || s.toList.contains ' ' then .argument s else .unknown s

/-- What a word is. An abbreviation that fits several options is not understood. -/
def Word.ofString (s : String) : Except Fault Word :=
  match s.toList with
  | '-' :: '-' :: cs =>
    let value := match cs.dropWhile (· != '=') with
      | [] => none
      | _ :: v => some (String.ofList v)
    match Flag.abbreviatedBy (cs.takeWhile (· != '=')) with
    | [] => .ok (.ofOther s)
    | [f] => .ok (.long f value)
    | _ => .error misuse
  | '-' :: c :: cs =>
    match Flag.ofLetter? c with
    | some _ => .ok (.letters (c :: cs))
    | none => .ok (.ofOther s)
  | _ => .ok (.argument s)

/-- What the words of a command line are. -/
def Word.ofStrings : List String → Except Fault (List Word)
  | [] => .ok []
  | s :: ss =>
    if s = "--" then .ok (.endOfOptions :: ss.map .argument)
    else do
      let w ← Word.ofString s
      let ws ← Word.ofStrings ss
      .ok (w :: ws)

/-! ## Letters -/

/-- How the letters after a dash are read. -/
inductive Lettering where
  /-- Each of them has to be an option. An equals sign may stand between the first one and the others. -/
  | whole
  /-- They are options up to the first that is none, and what is left is a word of its own. -/
  | leading
deriving DecidableEq, Repr

/-- The options that letters start with, and the word that is left. It has a dash, too. An equals sign
and another dash are not understood. -/
def leadingFlags : List Char → Except Fault (List Flag × Option String)
  | [] => .ok ([], none)
  | c :: cs =>
    match Flag.ofLetter? c with
    | some f => do
      let (fs, rest) ← leadingFlags cs
      .ok (f :: fs, rest)
    | none =>
      if c = '=' ∨ c = '-' then .error misuse else .ok ([], some (String.ofList ('-' :: c :: cs)))

/-- The options that letters stand for, and the word that is left of them, if there is one. -/
def Lettering.read : Lettering → List Char → Except Fault (List Flag × Option String)
  | .leading, cs => leadingFlags cs
  | .whole, cs =>
    let letters := match cs with
      | c :: '=' :: d :: ds => c :: d :: ds
      | cs => cs
    match letters.mapM Flag.ofLetter? with
    | none => .error misuse
    | some fs => .ok (fs, none)

/-! ## Taking options out -/

/-- What the options say. -/
structure Settings where
  position : Int := 0
  verbose : Bool := false
deriving DecidableEq, Repr

namespace Settings

/-- Heeds an option without a value. -/
def heed (s : Settings) : Flag → Except Fault Settings
  | .help => .error (.exit 0)
  | .verbose => .ok { s with verbose := true }
  | .position => .error misuse

/-- Heeds several options without a value. -/
def heedAll (s : Settings) : List Flag → Except Fault Settings
  | [] => .ok s
  | f :: fs => do (← s.heed f).heedAll fs

/-- Heeds a position. -/
def place (s : Settings) (value : String) : Except Fault Settings :=
  match Numeral.readInt value.toList with
  | .ok n => .ok { s with position := n }
  | .error _ => .error misuse

end Settings

/-- What is left of a word after its options have been taken out. -/
inductive Remnant where
  | argument (s : String)
  /-- An option was here. -/
  | taken
  | unknown (s : String)
  | endOfOptions
deriving DecidableEq, Repr

/-- What is left of letters, given the word that is left of them, if there is one. -/
def Remnant.ofRest : Option String → Remnant
  | none => .taken
  | some s => .unknown s

/-- Takes the options out of some words. The options of a word are heeded when all of the word has been
understood, and the words in order. -/
def takeOptions (l : Lettering) (s : Settings) : List Word → Except Fault (Settings × List Remnant)
  | [] => .ok (s, [])
  | .argument a :: ws => do
    let (s, rs) ← takeOptions l s ws
    .ok (s, .argument a :: rs)
  | .unknown u :: ws => do
    let (s, rs) ← takeOptions l s ws
    .ok (s, .unknown u :: rs)
  | .endOfOptions :: ws => do
    let (s, rs) ← takeOptions l s ws
    .ok (s, .endOfOptions :: rs)
  | .letters cs :: ws => do
    let (fs, rest) ← l.read cs
    let s ← s.heedAll fs
    let (s, rs) ← takeOptions l s ws
    .ok (s, .ofRest rest :: rs)
  | .long .position (some value) :: ws => do
    let s ← s.place value
    let (s, rs) ← takeOptions l s ws
    .ok (s, .taken :: rs)
  | .long .position none :: .argument value :: ws => do
    let s ← s.place value
    let (s, rs) ← takeOptions l s ws
    .ok (s, .taken :: rs)
  | .long .position none :: _ => .error misuse
  | .long _ (some _) :: _ => .error misuse
  | .long f none :: ws => do
    let s ← s.heed f
    let (s, rs) ← takeOptions l s ws
    .ok (s, .taken :: rs)

/-- What the first reading leaves for the second one; `seen` says whether an argument has been met. -/
def keep (seen : Bool) : List Remnant → List String
  | [] => []
  | .argument a :: rs => a :: keep true rs
  | .taken :: rs => keep seen rs
  | .unknown u :: rs => u :: keep seen rs
  | .endOfOptions :: rs => if seen then "--" :: keep seen rs else keep seen rs

/-! ## File and commands -/

/-- The text of an argument or of the end of options. -/
def Remnant.text? : Remnant → Option String
  | .argument a => some a
  | .endOfOptions => some "--"
  | .taken | .unknown _ => none

/-- The arguments of a file and of what stands after it. The commands stand together; the first `--`
among them is not a command. -/
def share (s : Settings) (file : String) (rs : List Remnant) : Except Fault Arguments :=
  let commands := (rs.takeWhile (·.text?.isSome)).filterMap Remnant.text?
  if (rs.dropWhile (·.text?.isSome)).all (· = .taken) then
    .ok ⟨file, commands.erase "--", s.position, s.verbose⟩
  else .error misuse

/-- Shares what the second reading has left between the file and the commands. -/
def ofRemnants (s : Settings) (rs : List Remnant) : Except Fault Arguments :=
  match rs.dropWhile (· = .taken) with
  | .endOfOptions :: .argument file :: rest => share s file rest
  | .argument file :: .endOfOptions :: rest => share s file rest
  | .argument file :: rest => share s file rest
  | _ => .error misuse

/-- Reads the words of a command line. -/
def ofStrings (l : Lettering) (words : List String) : Except Fault Arguments := do
  let (s, first) ← takeOptions l {} (← Word.ofStrings words)
  let (s, second) ← takeOptions l s (← Word.ofStrings (keep false first))
  ofRemnants s second

end Arguments

end SExprNav
