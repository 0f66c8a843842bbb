import StreamGrammar.Primitive.Basic

/-! # Grammars

A grammar is a tree of combinators over primitives and hand-made leaves. The functions of callers are
part of the tree; the name of a grammar is read off it. A deferred grammar stands for one that is
built when it is first needed, which lets grammars refer to themselves. -/

namespace StreamGrammar

/-! ### Functions of callers -/

abbrev Transform := Value → Except Raised Value

abbrev ValueTest := Value → Except Raised Bool

/-- Makes the accumulator that a fold begins with, anew for each parse. -/
abbrev FoldStart := Except Raised Value

instance : Coe Value FoldStart := ⟨.ok⟩

/-- Puts one more output into an accumulator. -/
abbrev FoldStep := Value → Value → Except Raised Value

/-- Makes a value from the bound slots, in the order of their steps. -/
abbrev Construct := List (String × Value) → Except Raised Value

/-! ### Parts of a grammar -/

/-- What a sequence makes of the outputs of its parts. -/
inductive Assembly where
  | slots (names : List (Option String)) (construct : Construct)
  | tuple
  | pair
  | preceded
  | terminated
  | delimited
  | separatedPair

/-- How often a grammar is repeated, and what becomes of the outputs. -/
inductive Repetition where
  | many0
  | many1
  | between (least most : Numeral)
  | times (count : Numeral)
  | fold0 (start : FoldStart) (step : FoldStep)
  | fold1 (start : FoldStart) (step : FoldStep)

/-- A combinator around a single grammar. -/
inductive Adapter where
  | optional
  | peek
  | negate
  | map (f : Transform)
  | mapResult (f : Transform) (caught : List ErrorClass) (code : Option Value)
  | recognize
  | verify (test : ValueTest)
  | context (code : Option Value)
  | cond (condition : Value)
  | condReduce (condition : Value)
  | trace (label : String)
  | renamed (name : String)

/-- Tells deferred grammars apart. -/
abbrev Key := Nat

inductive Grammar where
  | primitive (p : Primitive)
  | custom (name : String) (run : View → Except Fault (Outcome Value))
  | sequence (assembly : Assembly) (parts : List Grammar)
  | choice (first : Grammar) (rest : List Grammar)
  | repeated (r : Repetition) (g : Grammar)
  | manyTill (g terminator : Grammar)
  | separated (nonempty : Bool) (separator g : Grammar)
  | adapted (a : Adapter) (g : Grammar)
  | deferred (name : String) (key : Key)

/-- Induction over grammars, with the hypothesis for every part of a sequence or choice. -/
@[elab_as_elim, induction_eliminator]
theorem Grammar.induction {motive : Grammar → Prop}
    (primitive : ∀ p, motive (.primitive p))
    (custom : ∀ name run, motive (.custom name run))
    (sequence : ∀ assembly parts, (∀ g ∈ parts, motive g) → motive (.sequence assembly parts))
    (choice : ∀ first rest, motive first → (∀ g ∈ rest, motive g) → motive (.choice first rest))
    (repeated : ∀ r g, motive g → motive (.repeated r g))
    (manyTill : ∀ g terminator, motive g → motive terminator → motive (.manyTill g terminator))
    (separated : ∀ nonempty separator g, motive separator → motive g →
      motive (.separated nonempty separator g))
    (adapted : ∀ a g, motive g → motive (.adapted a g))
    (deferred : ∀ name key, motive (.deferred name key)) (g : Grammar) : motive g :=
  @Grammar.rec motive (fun gs => ∀ g ∈ gs, motive g) primitive custom sequence choice repeated
    manyTill separated adapted deferred (fun _ h => absurd h List.not_mem_nil)
    (fun _ _ hg hgs _ h => (List.mem_cons.mp h).elim (fun e => e ▸ hg) (hgs _)) g

/-! ### Assemblies -/

namespace Assembly

def word : Assembly → String
  | slots _ _ => "sequence"
  | tuple => "tuple"
  | pair => "pair"
  | preceded => "preceded"
  | terminated => "terminated"
  | delimited => "delimited"
  | separatedPair => "separated_pair"

/-- The outputs of the steps that have a slot; there must be one output for each step. -/
def captured : List (Option String) → List Value → Except Raised (List (String × Value))
  | [], [] => .ok []
  | some slot :: names, x :: xs => do return (slot, x) :: (← captured names xs)
  | none :: names, _ :: xs => captured names xs
  | [], _ :: _ => Mishap.raise (.uneven "longer")
  | _ :: _, [] => Mishap.raise (.uneven "shorter")

/-- The output at an index. -/
def nth (outputs : List Value) (index : Nat) : Except Raised Value :=
  match outputs[index]? with
  | some x => .ok x
  | none => Mishap.raise (.indexOutside "list")

def finish (a : Assembly) (outputs : List Value) : Except Raised Value :=
  match a with
  | slots names construct => do construct (← captured names outputs)
  | tuple => .ok (.tuple outputs)
  | pair => .ok (.tuple outputs)
  | preceded => nth outputs 1
  | terminated => nth outputs 0
  | delimited => nth outputs 1
  | separatedPair => do return .tuple [← nth outputs 0, ← nth outputs 2]

end Assembly

/-! ### Repetitions -/

namespace Repetition

def word : Repetition → String
  | many0 => "many0"
  | many1 => "many1"
  | between _ _ => "many_m_n"
  | times _ => "count"
  | fold0 _ _ => "fold_many0"
  | fold1 _ _ => "fold_many1"

/-- With fewer matches the repetition fails. -/
def least : Repetition → Nat
  | many0 => 0
  | many1 => 1
  | between least _ => least.toNat
  | times count => count.toNat
  | fold0 _ _ => 0
  | fold1 _ _ => 1

/-- After so many matches the repetition stops by itself. -/
def most : Repetition → Option Nat
  | between _ most => some most.toNat
  | times count => some count.toNat
  | _ => none

end Repetition

/-! ### Names -/

namespace Adapter

/-- The name of the adapter around a grammar of the given name. -/
def name (inner : String) : Adapter → String
  | optional => s!"opt({inner})"
  | peek => s!"peek({inner})"
  | negate => s!"not({inner})"
  | map _ => s!"map({inner})"
  | mapResult _ _ _ => s!"map_res({inner})"
  | recognize => s!"recognize({inner})"
  | verify _ => s!"verify({inner})"
  | context code =>
    let shown := (code.map Value.plain).getD "None"
    s!"context({shown}, {inner})"
  | cond condition => s!"cond({condition.plain}, {inner})"
  | condReduce condition => s!"cond_reduce({condition.plain}, {inner})"
  | trace label => s!"trace({label}, {inner})"
  | renamed name => name

end Adapter

/-- The name of a repetition of a grammar of the given name. -/
def Repetition.name (inner : String) (r : Repetition) : String :=
  match r with
  | between least most => s!"many_m_n({least.text}, {most.text}, {inner})"
  | times count => s!"count({inner}, {count.text})"
  | _ => s!"{r.word}({inner})"

def separatedWord (nonempty : Bool) : String :=
  if nonempty then "separated_list1" else "separated_list0"

namespace Grammar

mutual

def name : Grammar → String
  | primitive p => p.name
  | custom name _ => name
  | sequence assembly parts => assembly.word ++ "(" ++ ", ".intercalate (names parts) ++ ")"
  | choice first rest => "alt(" ++ " | ".intercalate (name first :: names rest) ++ ")"
  | repeated r g => r.name (name g)
  | manyTill g terminator => "many_till(" ++ name g ++ ", " ++ name terminator ++ ")"
  | separated nonempty separator g =>
    separatedWord nonempty ++ "(" ++ name separator ++ ", " ++ name g ++ ")"
  | adapted a g => a.name (name g)
  | deferred name _ => name

def names : List Grammar → List String
  | [] => []
  | g :: gs => name g :: names gs

end

@[simp] theorem names_eq_map (gs : List Grammar) : names gs = gs.map name := by
  induction gs with
  | nil => rfl
  | cons g gs ih => simp [names, ih]

def shown (g : Grammar) : String :=
  "<Parser " ++ g.name ++ ">"

end Grammar

end StreamGrammar
