import NovelScript.Command

/-! # Arguments

The command that the words of a command line stand for. Options have a long name behind two dashes,
some a letter behind one; letters can be joined. A value follows its option as the next word, behind
an equals sign, or right behind the letter. Behind two dashes alone all words are plain. -/

namespace NovelScript

namespace Arguments

/-- Why no command comes of a command line. -/
inductive Stop where
  /-- Help or the version is asked for. -/
  | help
  | usage
deriving DecidableEq, Repr

/-- What an option takes. -/
inductive OptionKind where
  | flag
  /-- A flag that can be given more than once. -/
  | counter
  | value (accepts : String → Bool)

/-- An option. -/
structure OptionSpec where
  long : String
  short : Option Char
  kind : OptionKind

/-- What the words so far stand for. -/
structure Parsed where
  flags : List String
  values : List (String × String)
  plain : List String
deriving DecidableEq, Repr

namespace Parsed

def empty : Parsed := ⟨[], [], []⟩

def has (p : Parsed) (name : String) : Bool := p.flags.contains name

def value? (p : Parsed) (name : String) : Option String := p.values.lookup name

end Parsed

/-- A grammar of words: the options, how many plain words there may be, whether the first of them
ends the part of the line that the grammar is for, and whether the version can be asked for. -/
structure Grammar where
  options : List OptionSpec
  plainLimit : Option Nat
  stopsAtPlain : Bool
  hasVersion : Bool

namespace Grammar

/-- Takes a flag. -/
def addFlag (spec : OptionSpec) (p : Parsed) : Except Stop Parsed :=
  match spec.kind with
  | .counter => .ok { p with flags := spec.long :: p.flags }
  | _ =>
    if p.has spec.long then .error .usage else .ok { p with flags := spec.long :: p.flags }

/-- Takes the value of an option, which may be given once. -/
def addValue (spec : OptionSpec) (value : String) (p : Parsed) : Except Stop Parsed :=
  match spec.kind with
  | .value accepts =>
    if accepts value && (p.value? spec.long).isNone then
      .ok { p with values := (spec.long, value) :: p.values }
    else .error .usage
  | _ => .error .usage

/-- Takes a plain word. All plain words are paths, which are not empty. -/
def addPlain (g : Grammar) (word : String) (p : Parsed) : Except Stop Parsed :=
  if word.isEmpty || g.plainLimit.any (· ≤ p.plain.length) then .error .usage
  else .ok { p with plain := p.plain ++ [word] }

/-- Takes words that are all plain. -/
def addPlains (g : Grammar) (words : List String) (p : Parsed) : Except Stop Parsed :=
  words.foldlM (fun p word => g.addPlain word p) p

/-- The option of a long name. -/
def long? (g : Grammar) (name : String) : Except Stop OptionSpec :=
  match g.options.find? fun spec => spec.long == name with
  | some spec => .ok spec
  | none =>
    if name = "help" || (name = "version" && g.hasVersion) then .error .help else .error .usage

/-- The option of a letter. -/
def short? (g : Grammar) (letter : Char) : Except Stop OptionSpec :=
  match g.options.find? fun spec => spec.short == some letter with
  | some spec => .ok spec
  | none =>
    if letter = 'h' || (letter = 'V' && g.hasVersion) then .error .help else .error .usage

/-- Takes joined letters. The last one may be an option that still needs its value. -/
def addLetters (g : Grammar) : List Char → Parsed → Except Stop (Parsed × Option OptionSpec)
  | [], p => .ok (p, none)
  | letter :: rest, p => do
    let spec ← g.short? letter
    match spec.kind with
    | .value _ =>
      match rest with
      | [] => return (p, some spec)
      | '=' :: value => return (← addValue spec (String.ofList value) p, none)
      | value => return (← addValue spec (String.ofList value) p, none)
    | _ => g.addLetters rest (← addFlag spec p)

/-- Takes a long option, which may still need its value. -/
def addLong (g : Grammar) (word : List Char) (p : Parsed) :
    Except Stop (Parsed × Option OptionSpec) := do
  let spec ← g.long? (String.ofList (word.takeWhile (· != '=')))
  let attached := word.dropWhile (· != '=')
  match spec.kind, attached with
  | .value _, [] => return (p, some spec)
  | .value _, _ :: value => return (← addValue spec (String.ofList value) p, none)
  | _, [] => return (← addFlag spec p, none)
  | _, _ :: _ => .error .usage

/-- Whether a word is an option and no value. -/
def isOption (word : String) : Bool := word.startsWith "-" && word != "-"

/-- Takes words, and gives those behind the point where the grammar stops. -/
def scan (g : Grammar) : List String → Parsed → Except Stop (Parsed × List String)
  | [], p => .ok (p, [])
  | word :: rest, p =>
    if word = "--" then (g.addPlains rest p).map fun p => (p, [])
    else if isOption word then
      match word.toList with
      | '-' :: '-' :: name => do
        match ← g.addLong name p with
        | (p, none) => g.scan rest p
        | (p, some spec) =>
          match rest with
          | [] => .error .usage
          | value :: rest =>
            if isOption value then .error .usage
            else g.scan rest (← addValue spec value p)
      | letters => do
        match ← g.addLetters (letters.drop 1) p with
        | (p, none) => g.scan rest p
        | (p, some spec) =>
          match rest with
          | [] => .error .usage
          | value :: rest =>
            if isOption value then .error .usage
            else g.scan rest (← addValue spec value p)
    else if g.stopsAtPlain then .ok (p, word :: rest)
    else do g.scan rest (← g.addPlain word p)

end Grammar

/-- A number below a limit, with a plus sign in front or not. -/
def natBelow? (limit : Nat) (text : String) : Option Nat :=
  let digits := match text.toList with
    | '+' :: rest => rest
    | cs => cs
  if digits.isEmpty || !digits.all Char.isDigit then none
  else
    let n := digits.foldl (fun n c => 10 * n + (c.toNat - 48)) 0
    if n < limit then some n else none

/-- A number of 32 bits. A zero may have a minus sign. -/
def count? (text : String) : Option Nat :=
  match text.toList with
  | '-' :: digits => if !digits.isEmpty && digits.all (· == '0') then some 0 else none
  | _ => natBelow? UInt32.size text

/-- A number of 64 bits. -/
def word? (text : String) : Option Nat := natBelow? UInt64.size text

def isPath (text : String) : Bool := !text.isEmpty

def title? (text : String) : Option Title := (Title.ofName text).toOption

def flag (long : String) : OptionSpec := ⟨long, none, .flag⟩

def lettered (letter : Char) (spec : OptionSpec) : OptionSpec := { spec with short := some letter }

def path (long : String) : OptionSpec := ⟨long, none, .value isPath⟩

def number (long : String) : OptionSpec := ⟨long, none, .value fun text => (word? text).isSome⟩

def titleOption : OptionSpec := ⟨"game", none, .value fun text => (title? text).isSome⟩

/-- The options that every command has. -/
def shared : List OptionSpec :=
  [lettered 'q' (flag "quiet"), ⟨"verbose", some 'v', .counter⟩, path "config"]

def topGrammar : Grammar := ⟨shared, some 0, true, true⟩

def dumpGrammar : Grammar where
  options := shared ++
    [lettered 's' (flag "tok-script"), lettered 'c' (flag "tok-cl"), flag "tokens", flag "raw",
     flag "offsets", flag "color", flag "ttf", flag "ttff", flag "elf", number "esflen",
     number "pre-error-len", number "debl", flag "cont-on-tok-failure", path "callgraph",
     lettered 'w' (flag "rewrite"), path "rewrite-dir", flag "lnk", titleOption,
     lettered 'o' (path "output")]
  plainLimit := none
  stopsAtPlain := false
  hasVersion := false

def playGrammar : Grammar where
  options := shared ++
    [flag "lnk", ⟨"steps", none, .value fun text => (count? text).isSome⟩, number "seed",
     ⟨"start", none, .value fun _ => true⟩, titleOption, flag "strict",
     lettered 'o' (path "output"), path "save"]
  plainLimit := some 1
  stopsAtPlain := false
  hasVersion := false

def archiveGrammar : Grammar := ⟨shared ++ [path "extract"], some 1, false, false⟩

def verifyGrammar : Grammar := ⟨shared ++ [path "script"], some 1, false, false⟩

def dumpCommand (p : Parsed) : Except Stop Command :=
  if p.plain.isEmpty then .error .usage
  else .ok (.dump {
    files := p.plain
    events := p.has "tok-script"
    convs := p.has "tok-cl"
    tokens := p.has "tokens"
    raw := p.has "raw"
    offsets := p.has "offsets"
    colour := p.has "color"
    tokenFrequency := p.has "ttf"
    followFrequency := p.has "ttff"
    elementLengths := p.has "elf"
    startLength := (p.value? "esflen").bind word?
    preErrorLength := (p.value? "pre-error-len").bind word?
    dumpLength := (p.value? "debl").bind word?
    continueOnFailure := p.has "cont-on-tok-failure"
    callGraph := p.value? "callgraph"
    writeBack := p.has "rewrite"
    writeBackFolder := (p.value? "rewrite-dir").getD "."
    archives := p.has "lnk"
    title := (p.value? "game").bind title?
    output := p.value? "output" })

def playCommand (p : Parsed) : Except Stop Command :=
  match p.plain with
  | [folder] => .ok (.play {
      folder := folder
      archives := p.has "lnk"
      steps := ((p.value? "steps").bind count?).getD 200
      seed := ((p.value? "seed").bind word?).map UInt64.ofNat
      start := p.value? "start"
      title := (p.value? "game").bind title?
      strict := p.has "strict"
      output := p.value? "output"
      save := p.value? "save" })
  | _ => .error .usage

def archiveCommand (p : Parsed) : Except Stop Command :=
  match p.plain with
  | [file] => .ok (.archive file (p.value? "extract"))
  | _ => .error .usage

def verifyCommand (p : Parsed) : Except Stop Command :=
  match p.plain, p.value? "script" with
  | [save], some script => .ok (.verifySave save script)
  | _, _ => .error .usage

/-- The grammar of each command, and the command that comes of it. -/
def commands : List (String × Grammar × (Parsed → Except Stop Command)) :=
  [("dump", dumpGrammar, dumpCommand), ("play", playGrammar, playCommand),
   ("lnk", archiveGrammar, archiveCommand), ("verify-save", verifyGrammar, verifyCommand)]

/-- The command that words stand for. The configuration that is named last wins, if one is named
on either side of the command's name. -/
def parse (words : List String) : Except Stop Invocation := do
  match ← topGrammar.scan words .empty with
  | (_, []) => .error .usage
  | (top, name :: rest) =>
    match commands.lookup name with
    | some (grammar, command) =>
      let (p, _) ← grammar.scan rest .empty
      return ⟨(p.value? "config").or (top.value? "config"), ← command p⟩
    | none =>
      if name = "help" && rest.all (fun word => (commands.lookup word).isSome) then .error .help
      else .error .usage

end Arguments

end NovelScript
