import FuzzyControl.Language.Conclusion
import FuzzyControl.Language.Tree
import FuzzyControl.Text.Token

/-!
# Checked reading

Rule texts can be read in place: tokens, items and bracket partners are kept in tables, and
every step goes by indices into them.  Here each step that could go wrong is checked, be it an
index, a subtraction, the progress of a loop, the size of a range or the depth of the descent.
A failed check is a breach and not a fault of the text.
-/

namespace FuzzyControl

namespace Checked

/-- A check that must not fail. -/
inductive Breach where
  | lexemeOutOfRange
  | tokenOutOfRange
  | itemOutOfRange
  | partnerOutOfRange
  | missingVariable
  /-- A difference of positions would be negative. -/
  | negative
  | stalled
  /-- A descent does not lead to a smaller range inside of the present one. -/
  | notSmaller
  /-- Ranges are nested deeper than brackets can be. -/
  | nestingBudget
  | strayClosing
  | missingConnective
deriving DecidableEq, Repr

inductive Halt where
  | breach (breach : Breach)
  | refused (cause : LanguageError)
deriving DecidableEq, Repr

def refuse {α : Type} (cause : LanguageError) : Except Halt α :=
  .error (.refused cause)

def require {α : Type} (breach : Breach) : Option α → Except Halt α
  | some value => .ok value
  | none => .error (.breach breach)

def subtract (position other : Nat) : Except Halt Nat :=
  if other ≤ position then .ok (position - other) else .error (.breach .negative)

structure Table where
  tokens : List String
  lexemes : List Lexeme

namespace Table

def token (table : Table) (index : Nat) : Except Halt String :=
  require .tokenOutOfRange table.tokens[index]?

def lexeme (table : Table) (index : Nat) : Except Halt Lexeme :=
  require .lexemeOutOfRange table.lexemes[index]?

def unexpected {α : Type} (table : Table) (index : Nat) : Except Halt α := do
  let token ← table.token index
  refuse (.unexpectedToken token index)

def resolve (table : Table) (index : Nat) (owner : Owner) (ownerName : String) :
    Except Halt Nat := do
  match ← table.lexeme index with
  | .term candidates =>
      match (Lexeme.term candidates).resolve? owner with
      | some value => .ok value
      | none => do
          let token ← table.token index
          refuse (.unresolvedTerm token ownerName)
  | _ => table.unexpected index

/-! ## Leaves -/

def leafTerm (table : Table) (vocabulary : Vocabulary) (input start stop : Nat) (negated : Bool)
    (hedge : Option Hedge) (index : Nat) : Except Halt LeafReading :=
  if stop ≤ index then refuse (.incompleteCondition index)
  else do
    let signature ← require .missingVariable vocabulary.inputs[input]?
    let term ← table.resolve index (.input input) signature.name
    let length ← subtract (index + 1) start
    .ok ⟨⟨input, term, negated, hedge⟩, length⟩

def hedge? : Lexeme → Option Hedge
  | .keyword (.adverb hedge) => some hedge
  | _ => none

def leafHedge (table : Table) (vocabulary : Vocabulary) (input start stop : Nat) (negated : Bool)
    (index : Nat) : Except Halt LeafReading :=
  match (table.lexemes[index]?.filter fun _ => index < stop).bind hedge? with
  | some hedge => table.leafTerm vocabulary input start stop negated (some hedge) (index + 1)
  | none => table.leafTerm vocabulary input start stop negated none index

/-- Reads the leaf that starts at `start` and has to end before `stop`. -/
def leaf (table : Table) (vocabulary : Vocabulary) (input start stop : Nat) :
    Except Halt LeafReading :=
  if stop ≤ start + 1 then refuse (.incompleteCondition start)
  else do
    let verb ← table.lexeme (start + 1)
    if verb = .keyword .isWord then
      if start + 2 < stop then do
        let word ← table.lexeme (start + 2)
        if word = .keyword .notWord then
          table.leafHedge vocabulary input start stop true (start + 3)
        else table.leafHedge vocabulary input start stop false (start + 2)
      else table.leafHedge vocabulary input start stop false (start + 2)
    else refuse (.missingKeyword .isWord (start + 1))

/-- The item that a token stands for, unless it starts a leaf. -/
def mark? : Lexeme → Option Item
  | .keyword .openBracket => some (.bracket .opening)
  | .keyword .closeBracket => some (.bracket .closing)
  | .keyword .andWord => some (.connective .and)
  | .keyword .orWord => some (.connective .or)
  | _ => none

def items (table : Table) (vocabulary : Vocabulary) (stop start : Nat) :
    Except Halt (List (Nat × Item)) :=
  if start < stop then
    match table.lexeme start with
    | .error halt => .error halt
    | .ok (.input input) =>
        match table.leaf vocabulary input start stop with
        | .error halt => .error halt
        | .ok reading =>
            if 0 < reading.length then
              (table.items vocabulary stop (start + reading.length)).map
                ((start, .leaf reading.proposition) :: ·)
            else .error (.breach .stalled)
    | .ok lexeme =>
        match mark? lexeme with
        | some item => (table.items vocabulary stop (start + 1)).map ((start, item) :: ·)
        | none => table.unexpected start
  else .ok []
termination_by stop - start
decreasing_by all_goals omega

/-! ## Conclusions -/

def bracket? : Lexeme → Option Bracket
  | .keyword .openBracket => some .opening
  | .keyword .closeBracket => some .closing
  | _ => none

/-- Nothing is left open; otherwise the innermost open bracket is at fault. -/
def checkClosed : List Nat → Except Halt Unit
  | [] => .ok ()
  | innermost :: _ => refuse (.unbalancedBrackets innermost)

/-- Matches the brackets from `start` on; the positions of open ones are `opened`. -/
def checkBrackets (table : Table) (stop start : Nat) (opened : List Nat) : Except Halt Unit :=
  if start < stop then
    match table.lexeme start with
    | .error halt => .error halt
    | .ok lexeme =>
        match bracket? lexeme, opened with
        | some .opening, opened => table.checkBrackets stop (start + 1) (start :: opened)
        | some .closing, [] => refuse (.unbalancedBrackets start)
        | some .closing, _ :: outer => table.checkBrackets stop (start + 1) outer
        | none, opened => table.checkBrackets stop (start + 1) opened
  else checkClosed opened
termination_by stop - start
decreasing_by all_goals omega

def isEnclosed (table : Table) (start stop : Nat) : Except Halt Bool :=
  if start + 2 ≤ stop then do
    let first ← table.lexeme start
    if first = .keyword .openBracket then do
      let index ← subtract stop 1
      let last ← table.lexeme index
      .ok (decide (last = .keyword .closeBracket))
    else .ok false
  else .ok false

def subject (table : Table) (index : Nat) : Except Halt Nat := do
  match ← table.lexeme index with
  | .output key => .ok key
  | .input _ => do
      let token ← table.token index
      refuse (.invalidConclusion (.inputVariable token))
  | _ => do
      let token ← table.token index
      refuse (.invalidConclusion (.notOutputVariable token))

def plainConclusion (table : Table) (vocabulary : Vocabulary) (start stop : Nat) :
    Except Halt Conclusion := do
  let length ← subtract stop start
  if length = 3 then do
    let key ← table.subject start
    let verb ← table.lexeme (start + 1)
    if verb = .keyword .isWord then do
      let signature ← require .missingVariable vocabulary.outputs[key]?
      let value ← table.resolve (start + 2) (.output key) signature.name
      .ok { output := key, value := value }
    else refuse (.missingKeyword .isWord (start + 1))
  else refuse (.invalidConclusion (.length length))

def conclusion (table : Table) (vocabulary : Vocabulary) (start stop : Nat) :
    Except Halt Conclusion := do
  table.checkBrackets stop start []
  let enclosed ← table.isEnclosed start stop
  if enclosed then do
    let last ← subtract stop 1
    table.plainConclusion vocabulary (start + 1) last
  else table.plainConclusion vocabulary start stop

end Table

/-! ## Trees -/

structure Builder where
  table : Table
  items : List (Nat × Item)
  /-- The partner of every opening bracket; other entries mean nothing. -/
  closes : List Nat
  /-- The position of the token after the premise. -/
  stop : Nat

namespace Builder

def item (builder : Builder) (index : Nat) : Except Halt Item :=
  (require .itemOutOfRange builder.items[index]?).map (·.2)

def close (builder : Builder) (index : Nat) : Except Halt Nat :=
  require .partnerOutOfRange builder.closes[index]?

/-- The position of an item, or of the token after the premise. -/
def position (builder : Builder) (index : Nat) : Nat :=
  match builder.items[index]? with
  | some placed => placed.1
  | none => builder.stop

/--
Fills the table of partners.  The indices of open brackets are `opened`, the innermost first,
and the items from `index` on are still to come.
-/
def partners (items : List (Nat × Item)) (opened closes : List Nat) (index : Nat) :
    List (Nat × Item) → Except Halt (List Nat)
  | [] =>
      match opened with
      | [] => .ok closes
      | innermost :: _ => do
          let placed ← require .itemOutOfRange items[innermost]?
          refuse (.unbalancedBrackets placed.1)
  | (position, .bracket .opening) :: rest =>
      if maxNesting < opened.length + 1 then refuse (.nestingTooDeep position maxNesting)
      else partners items (index :: opened) closes (index + 1) rest
  | (position, .bracket .closing) :: rest =>
      match opened with
      | [] => refuse (.unbalancedBrackets position)
      | innermost :: outer =>
          if innermost < closes.length then
            partners items outer (closes.set innermost index) (index + 1) rest
          else .error (.breach .partnerOutOfRange)
  | (_, .leaf _) :: rest | (_, .connective _) :: rest =>
      partners items opened closes (index + 1) rest

def strip (builder : Builder) (start stop : Nat) : Except Halt (Nat × Nat) :=
  if start < stop then
    match builder.item start with
    | .error halt => .error halt
    | .ok (.bracket .opening) =>
        match builder.close start, subtract stop 1 with
        | .error halt, _ | _, .error halt => .error halt
        | .ok close, .ok _ =>
            if close = stop - 1 then builder.strip (start + 1) (stop - 1) else .ok (start, stop)
    | .ok _ => .ok (start, stop)
  else .ok (start, stop)
termination_by stop - start

def loneLeaf? (builder : Builder) (start stop : Nat) : Except Halt (Option Proposition) := do
  let length ← subtract stop start
  let item ← builder.item start
  match length, item with
  | 1, .leaf proposition => .ok (some proposition)
  | _, _ => .ok none

/-- Reads one operand of a range, and gives the index after it. -/
def operand (builder : Builder) (inner : Nat → Nat → Except Halt Condition)
    (start stop index : Nat) : Except Halt (Condition × Nat) := do
  match ← builder.item index with
  | .leaf proposition => .ok (.leaf proposition, index + 1)
  | .bracket .opening => do
      let close ← builder.close index
      if start < index + 1 ∧ index + 1 ≤ close ∧ close < stop then
        (inner (index + 1) close).map fun condition => (condition, close + 1)
      else .error (.breach .notSmaller)
  | .bracket .closing => .error (.breach .strayClosing)
  | .connective _ => builder.table.unexpected (builder.position index)

/-- Reads operands from `index` on, joined by connectives that agree with `sofar`. -/
def chain (builder : Builder) (inner : Nat → Nat → Except Halt Condition)
    (start stop : Nat) (sofar : Option Connective) (index : Nat) :
    Except Halt (List Condition × Option Connective) :=
  match builder.operand inner start stop index with
  | .error halt => .error halt
  | .ok (first, next) =>
      if stop ≤ next then .ok ([first], sofar)
      else
        match builder.item next with
        | .error halt => .error halt
        | .ok (.connective own) =>
            if sofar.any (· != own) then refuse (.inconsistentOperator (builder.position next))
            else if stop ≤ next + 1 then refuse (.incompleteCondition (builder.position (next + 1)))
            else if index < next then
              (builder.chain inner start stop (some own) (next + 1)).map fun later =>
                (first :: later.1, later.2)
            else .error (.breach .stalled)
        | .ok _ => builder.table.unexpected (builder.position next)
termination_by stop - index

/-- Builds the condition of a range, descending into at most `budget` nested ranges. -/
def build (builder : Builder) : Nat → Nat → Nat → Except Halt Condition
  | 0, _, _ => .error (.breach .nestingBudget)
  | budget + 1, first, last => do
      let (start, stop) ← builder.strip first last
      if stop ≤ start then refuse (.incompleteCondition (builder.position start))
      else
        match ← builder.loneLeaf? start stop with
        | some proposition => .ok (.leaf proposition)
        | none =>
            match ← builder.chain (builder.build budget) start stop none start with
            | (children, some connective) => .ok (.group connective false children)
            | (_, none) => .error (.breach .missingConnective)

end Builder

def condition (table : Table) (items : List (Nat × Item)) (stop : Nat) : Except Halt Condition := do
  let closes ← Builder.partners items [] (List.replicate items.length 0) 0 items
  (Builder.mk table items closes stop).build (maxNesting + 1) 0 items.length

/-! ## Rule texts -/

def statement (vocabulary : Vocabulary) (table : Table) : Except Halt Statement :=
  if table.lexemes.head? = some (.keyword .ifWord) then
    match table.lexemes.findIdx? (· == .keyword .thenWord) with
    | none => refuse (.missingKeyword .thenWord table.tokens.length)
    | some stop => do
        let items ← table.items vocabulary stop 1
        let condition ← condition table items stop
        let conclusion ← table.conclusion vocabulary (stop + 1) table.tokens.length
        .ok ⟨condition, conclusion⟩
  else refuse (.missingKeyword .ifWord 0)

def lexemes (lexicon : Lexicon) : List String → Except Halt (List Lexeme)
  | [] => .ok []
  | token :: rest =>
      match lexicon.find? token with
      | none => refuse (.unknownIdentifier token)
      | some lexeme => (lexemes lexicon rest).map (lexeme :: ·)

def readText (vocabulary : Vocabulary) (lexicon : Lexicon) (text : String) :
    Except Halt Statement := do
  let lexemes ← lexemes lexicon (tokenize text)
  statement vocabulary ⟨tokenize text, lexemes⟩

end Checked

end FuzzyControl
