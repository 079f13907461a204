import StateSpace.Text.Digit
import StateSpace.Text.Quoted

/-!
Reading the words of a command line against a list of declared options.

The words are first told apart, then read from left to right. An option may be cut short as long as
only one declared name begins with it, and its value may follow an equals sign. A word that nothing
asks for is kept as a stray word, and stray words are refused at the end. Of an option that is
given again the last value counts.
-/
namespace StateSpace.CommandLine

/-- The word behind which all words are arguments. -/
def separator : String := "--"

/-- What an option takes: nothing, nothing and it ends the reading, one word, or any number of
words. -/
inductive Arity where
  | flag
  | halt
  | one
  | many
  deriving DecidableEq

/-- An option; without choices any word will do as its value. -/
structure Declared (κ : Type) where
  key : κ
  names : List String
  arity : Arity
  choices : List String

/-- What an option's own word holds behind its name: nothing, or a value behind an equals sign or,
behind a one-letter name, without one. -/
inductive Attached where
  | nothing
  | value (name : List Char) (text : String)
  deriving DecidableEq

/-- A word's part in a command line. -/
inductive Role (κ : Type) where
  | argument
  | option (o : Declared κ) (attached : Attached)
  | stranger
  | separator

inductive UsageError where
  | ambiguous (word : String) (names : List String)
  | missingValue (names : List String)
  | unwantedValue (names : List String) (value : String)
  | invalidChoice (names : List String) (value : String) (choices : List String)
  | strayWords (words : List String)
  deriving DecidableEq

def ofOption (names : List String) (complaint : String) : String :=
  "argument " ++ "/".intercalate names ++ ": " ++ complaint

def UsageError.message : UsageError → String
  | .ambiguous word names =>
      "ambiguous option: " ++ word ++ " could match " ++ ", ".intercalate names
  | .missingValue names => ofOption names "expected one argument"
  | .unwantedValue names value =>
      ofOption names ("ignored explicit argument " ++ Text.quoted value)
  | .invalidChoice names value choices =>
      ofOption names
        ("invalid choice: " ++ Text.quoted value ++ " (choose from " ++
          ", ".intercalate (choices.map Text.quoted) ++ ")")
  | .strayWords words => "unrecognized arguments: " ++ " ".intercalate words

/-- Why the reading stops before the end. -/
inductive Stop where
  | help
  | usage (e : UsageError)
  deriving DecidableEq

/-- The values of an option at one place of the command line. -/
structure Given (κ : Type) where
  key : κ
  values : List String

/-! ### Telling words apart -/

/-- The part before the first equals sign, and what is attached by it. -/
def splitAtEquals (word : List Char) : List Char × Attached :=
  match word.dropWhile (· != '=') with
  | [] => (word, .nothing)
  | _ :: value =>
      let name := word.takeWhile (· != '=')
      (name, .value name (String.ofList value))

def isDigit (c : Char) : Bool := (Text.digitValue? c).isSome

/-- Whether a word is a negative number in plain digits, with or without a fraction. -/
def isNegativeNumeral (word : List Char) : Bool :=
  let body := if word.getLast? = some '\n' then word.dropLast else word
  match body with
  | '-' :: rest =>
      match rest.dropWhile isDigit with
      | [] => !rest.isEmpty
      | '.' :: fraction => !fraction.isEmpty && fraction.all isDigit
      | _ => false
  | _ => false

section

variable {κ : Type}

/-- Every name of every option, in the order of declaration. -/
def allNames (declared : List (Declared κ)) : List (String × Declared κ) :=
  declared.flatMap fun o => o.names.map fun name => (name, o)

def named? (declared : List (Declared κ)) (name : List Char) : Option (Declared κ) :=
  (allNames declared).lookup (String.ofList name)

/-- The options that a word may be short for, each by name and with what would be attached. -/
def candidates (declared : List (Declared κ)) (word : List Char) :
    List (String × Declared κ × Attached) :=
  match word with
  | '-' :: '-' :: _ =>
      let (start, attached) := splitAtEquals word
      (allNames declared).filterMap fun (name, o) =>
        if start.isPrefixOf name.toList then some (name, o, attached) else none
  | dash :: letter :: rest =>
      (allNames declared).filterMap fun (name, o) =>
        if name.toList = [dash, letter] then
          some (name, o, .value [dash, letter] (String.ofList rest))
        else if word.isPrefixOf name.toList then some (name, o, .nothing)
        else none
  | _ => []

/-- The role of a word that names no option in full. -/
def guess (declared : List (Declared κ)) (word : List Char) : Except UsageError (Role κ) :=
  match candidates declared word with
  | [] =>
      .ok (if isNegativeNumeral word || word.contains ' ' then .argument else .stranger)
  | [(_, o, attached)] => .ok (.option o attached)
  | several => .error (.ambiguous (String.ofList word) (several.map (·.1)))

def role (declared : List (Declared κ)) (word : List Char) : Except UsageError (Role κ) :=
  match word with
  | '-' :: _ :: _ =>
      let (name, attached) := splitAtEquals word
      match named? declared word, named? declared name with
      | some o, _ => .ok (.option o .nothing)
      | none, some o => .ok (.option o attached)
      | none, none => guess declared word
  | _ => .ok .argument

/-- The role of every word; behind a separator all words are arguments. -/
def roles (declared : List (Declared κ)) :
    List String → Except UsageError (List (String × Role κ))
  | [] => .ok []
  | word :: rest =>
      if word = separator then
        .ok ((word, .separator) :: rest.map fun word => (word, .argument))
      else do
        let r ← role declared word.toList
        let later ← roles declared rest
        .ok ((word, r) :: later)

/-! ### Reading -/

/-- The words in front that are arguments. -/
def leadingArguments : List (String × Role κ) → List String × List (String × Role κ)
  | (word, .argument) :: rest =>
      let (arguments, rest) := leadingArguments rest
      (word :: arguments, rest)
  | rest => ([], rest)

theorem length_leadingArguments (words : List (String × Role κ)) :
    (leadingArguments words).2.length ≤ words.length := by
  fun_induction leadingArguments words with
  | case1 word rest _ _ h ih =>
    rw [h] at ih
    exact Nat.le_succ_of_le ih
  | case2 => exact Nat.le_refl _

/-- Refuses the first value that is none of the choices. -/
def choose (o : Declared κ) (values : List String) : Except Stop (Given κ) :=
  match values.find? fun value => !o.choices.isEmpty && !o.choices.contains value with
  | some value => .error (.usage (.invalidChoice o.names value o.choices))
  | none => .ok { key := o.key, values }

/-- The end of the reading by an option that a value is attached to: letters that repeat the name of
a one-letter option say nothing, and anything else is unwanted. -/
def haltWith (o : Declared κ) (name : List Char) (value : String) : Stop :=
  match name with
  | ['-', letter] =>
      let rest := value.toList.dropWhile (· == letter)
      if rest.isEmpty && value != "" then .help
      else .usage (.unwantedValue o.names (String.ofList rest))
  | _ => .usage (.unwantedValue o.names value)

/-- An option, named in one of its ways, whose word holds a value; the separator is none. -/
def withValue (o : Declared κ) (name : List Char) (value : String) : Except Stop (Given κ) :=
  match o.arity with
  | .flag => .error (.usage (.unwantedValue o.names value))
  | .halt => .error (haltWith o name value)
  | .one | .many => choose o (if value = separator then [] else [value])

/-- What is given, in order, and the stray words. -/
def collect : List (String × Role κ) → Except Stop (List (Given κ) × List String)
  | [] => .ok ([], [])
  | (_, .option o (.value name text)) :: rest => do
      let given ← withValue o name text
      let (later, stray) ← collect rest
      .ok (given :: later, stray)
  | (_, .option o .nothing) :: rest =>
      match o.arity with
      | .halt => .error .help
      | .flag => do
          let (later, stray) ← collect rest
          .ok ({ key := o.key, values := [] } :: later, stray)
      | .one =>
          match rest with
          | (word, .argument) :: rest => do
              let given ← choose o [word]
              let (later, stray) ← collect rest
              .ok (given :: later, stray)
          | _ => .error (.usage (.missingValue o.names))
      | .many =>
          have := length_leadingArguments rest
          let words := leadingArguments rest
          do
            let given ← choose o words.1
            let (later, stray) ← collect words.2
            .ok (given :: later, stray)
  | (word, _) :: rest => do
      let (later, stray) ← collect rest
      .ok (later, word :: stray)
  termination_by words => words.length
  decreasing_by all_goals simp_wf <;> omega

/-- The options given on a command line, in order. -/
def read (declared : List (Declared κ)) (words : List String) :
    Except Stop (List (Given κ)) := do
  let words ←
    match roles declared words with
    | .ok words => .ok words
    | .error e => .error (.usage e)
  let (given, stray) ← collect words
  if stray.isEmpty then .ok given else .error (.usage (.strayWords stray))

/-- The values of an option at the last place where it is given. -/
def last? [BEq κ] (key : κ) (given : List (Given κ)) : Option (List String) :=
  (given.reverse.find? fun g => g.key == key).map (·.values)

end

end StateSpace.CommandLine
