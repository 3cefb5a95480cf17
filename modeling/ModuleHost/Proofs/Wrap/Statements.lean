import Mathlib.Data.List.Nodup
import ModuleHost.Wrap.Import

/-! The statements that are written for imports: their text, when that text is a program, and what
running it resolves and binds. -/

namespace ModuleHost.Wrap

open ModuleHost.Text

inductive Expression where
  | resolve (function specifier : String)
  | constant (name : String)
  | member (name property : String)

inductive Key where
  | bare (name : String)
  | literal (name : String)

/-- An entry of an object pattern; without a key the property has the name that is bound. -/
structure Field where
  key : Option Key
  name : String

inductive Target where
  | whole (name : String)
  | parts (fields : List Field)

inductive Stmt where
  | run (value : Expression)
  | declare (target : Target) (value : Expression)

def Expression.text : Expression → String
  | .resolve function specifier => "await " ++ (function ++ "(" ++ Json.quote specifier ++ ")")
  | .constant name => name
  | .member name property => name ++ "." ++ property

def Key.text : Key → String
  | .bare name => name
  | .literal name => Json.quote name

def Field.text (f : Field) : String :=
  match f.key with
  | none => f.name
  | some key => key.text ++ ": " ++ f.name

def Target.text : Target → String
  | .whole name => name
  | .parts fields => inBraces (String.intercalate ", " (fields.map Field.text))

def Stmt.text : Stmt → String
  | .run value => value.text ++ ";"
  | .declare target value => "const " ++ target.text ++ " = " ++ value.text ++ ";"

def textOf (group : List Stmt) : String := String.intercalate " " (group.map Stmt.text)

/-- What the language allows as a name, and behind a dot or as a bare key. -/
def isIdentifierName (name : String) : Bool :=
  match name.toList with
  | [] => false
  | c :: rest => isIdentifierStart c && rest.all isIdentifierPart

def Key.legal : Key → Bool
  | .bare name => isIdentifierName name
  | .literal _ => true

def Field.legal (f : Field) : Bool := f.key.all Key.legal && isIdentifierName f.name

def Target.legal : Target → Bool
  | .whole name => isIdentifierName name
  | .parts fields => fields.all Field.legal

def Expression.legal : Expression → Bool
  | .resolve .. => true
  | .constant name => isIdentifierName name
  | .member name property => isIdentifierName name && isIdentifierName property

def Stmt.legal : Stmt → Bool
  | .run value => value.legal
  | .declare target value => target.legal && value.legal

/-- The result of one of the calls, or what is found there behind some properties. -/
structure Found where
  call : Nat
  path : List String
  deriving DecidableEq

/-- What has been resolved and bound, each in order. -/
structure Scope where
  calls : List (String × String)
  bound : List (String × Found)
  deriving DecidableEq

def Key.property : Key → String
  | .bare name | .literal name => name

def Field.property (f : Field) : String := (f.key.map Key.property).getD f.name

def Target.bindings (found : Found) : Target → List (String × Found)
  | .whole name => [(name, found)]
  | .parts fields => fields.map fun f => (f.name, ⟨found.call, found.path ++ [f.property]⟩)

namespace Scope

def declare (s : Scope) (name : String) (found : Found) : Option Scope :=
  if name ∈ s.bound.map Prod.fst then none else some { s with bound := s.bound ++ [(name, found)] }

def declareAll (s : Scope) : List (String × Found) → Option Scope
  | [] => some s
  | (name, found) :: more => (s.declare name found).bind (·.declareAll more)

def eval (s : Scope) : Expression → Option (Found × Scope)
  | .resolve function specifier =>
    some (⟨s.calls.length, []⟩, { s with calls := s.calls ++ [(function, specifier)] })
  | .constant name => (s.bound.lookup name).map (·, s)
  | .member name property =>
    (s.bound.lookup name).map fun found => (⟨found.call, found.path ++ [property]⟩, s)

def step (s : Scope) : Stmt → Option Scope
  | .run value => (s.eval value).map Prod.snd
  | .declare target value => do
    let (found, s) ← s.eval value
    s.declareAll (target.bindings found)

def run (s : Scope) : List Stmt → Option Scope
  | [] => some s
  | stmt :: more => (s.step stmt).bind (·.run more)

/-- What statements come to where some names are taken. A constant hides a function of its name from
all of them. -/
def outcome (taken : List String) (p : List Stmt) : Option Scope :=
  (run ⟨[], []⟩ p).filter fun s =>
    (s.bound.map Prod.fst).all fun name => name ∉ taken ++ s.calls.map Prod.fst

def extend (s : Scope) (calls : List (String × String)) (bindings : List (String × Found)) :
    Option Scope :=
  if ((s.bound ++ bindings).map Prod.fst).Nodup then some ⟨s.calls ++ calls, s.bound ++ bindings⟩
  else none

def Proper (s : Scope) : Prop := (s.bound.map Prod.fst).Nodup

variable {s s' : Scope} {calls calls' : List (String × String)}
  {bindings bindings' : List (String × Found)} {p q : List Stmt} {name : String} {found : Found}

theorem run_append (s : Scope) (p q : List Stmt) : s.run (p ++ q) = (s.run p).bind (·.run q) := by
  induction p generalizing s with
  | nil => rfl
  | cons stmt p ih =>
    rw [List.cons_append, run, run, Option.bind_assoc]
    congr 1
    funext t
    exact ih t

theorem proper_of_extend (h : s.extend calls bindings = some s') : s'.Proper ∧
    s'.calls = s.calls ++ calls ∧ s'.bound = s.bound ++ bindings := by
  unfold extend at h
  split at h
  · rename_i hnodup
    cases h
    exact ⟨hnodup, rfl, rfl⟩
  · cases h

theorem extend_nil (h : s.Proper) : s.extend calls [] = some ⟨s.calls ++ calls, s.bound⟩ := by
  have hnodup : ((s.bound ++ []).map Prod.fst).Nodup := by
    rw [List.append_nil]
    exact h
  rw [extend, if_pos hnodup, List.append_nil]

theorem extend_extend (s : Scope) (calls calls' : List (String × String))
    (bindings bindings' : List (String × Found)) :
    (s.extend calls bindings).bind (·.extend calls' bindings') =
      s.extend (calls ++ calls') (bindings ++ bindings') := by
  by_cases hfirst : ((s.bound ++ bindings).map Prod.fst).Nodup
  · rw [extend, if_pos hfirst, Option.bind_some, extend, extend, ← List.append_assoc,
      ← List.append_assoc]
  · have hboth : ¬((s.bound ++ (bindings ++ bindings')).map Prod.fst).Nodup := by
      intro hnodup
      apply hfirst
      rw [← List.append_assoc, List.map_append] at hnodup
      exact hnodup.of_append_left
    rw [extend, if_neg hfirst, extend, if_neg hboth]
    rfl

theorem declareAll_eq (h : s.Proper) (bindings : List (String × Found)) :
    s.declareAll bindings = s.extend [] bindings := by
  induction bindings generalizing s with
  | nil => rw [extend_nil h, List.append_nil]; rfl
  | cons binding bindings ih =>
    obtain ⟨name, found⟩ := binding
    have hone : s.declare name found = s.extend [] [(name, found)] := by
      have hiff : ((s.bound ++ [(name, found)]).map Prod.fst).Nodup ↔
          name ∉ s.bound.map Prod.fst := by
        rw [List.map_append, List.nodup_append]
        constructor
        · intro hnodup hmem
          exact hnodup.2.2 name hmem name (List.mem_singleton_self _) rfl
        · intro hnot
          refine ⟨h, List.nodup_singleton _, fun a ha b hb heq => hnot ?_⟩
          obtain rfl : b = name := List.mem_singleton.mp hb
          rwa [← heq]
      by_cases hmem : name ∈ s.bound.map Prod.fst
      · rw [declare, if_pos hmem, extend, if_neg (fun hnodup => hiff.mp hnodup hmem)]
      · rw [declare, if_neg hmem, extend, if_pos (hiff.mpr hmem), List.append_nil]
    have hsplit := extend_extend s [] [] [(name, found)] bindings
    rw [declareAll, hone]
    rw [List.nil_append, List.singleton_append] at hsplit
    rw [← hsplit]
    cases hext : s.extend [] [(name, found)] with
    | none => rfl
    | some t => exact ih (proper_of_extend hext).1

theorem lookup_extend (hlookup : s.bound.lookup name = some found)
    (h : s.extend calls bindings = some s') : s'.bound.lookup name = some found := by
  rw [(proper_of_extend h).2.2, List.lookup_append, hlookup]
  rfl

theorem lookup_declared (h : s.extend calls [(name, found)] = some s') :
    s'.bound.lookup name = some found := by
  obtain ⟨hproper, -, hbound⟩ := proper_of_extend h
  have hnone : s.bound.lookup name = none := by
    rw [List.lookup_eq_none_iff]
    intro binding hmem
    have hnodup : ((s.bound ++ [(name, found)]).map Prod.fst).Nodup := hbound ▸ hproper
    rw [List.map_append, List.nodup_append] at hnodup
    have hne := hnodup.2.2 _ (List.mem_map_of_mem hmem) name (List.mem_singleton_self _)
    simpa using hne.symm
  rw [hbound, List.lookup_append, hnone, Option.none_or, List.lookup_cons, beq_self_eq_true]

/-- Where something is known, statements make some calls and bind some names, unless a name would be
bound twice. Bindings depend on how many calls have been made before. -/
def Adds (known : Scope → Prop) (p : List Stmt) (calls : List (String × String))
    (bindings : Nat → List (String × Found)) : Prop :=
  ∀ s : Scope, s.Proper → known s → s.run p = s.extend calls (bindings s.calls.length)

def Nothing (_ : Scope) : Prop := True

def Latest (name : String) (s : Scope) : Prop :=
  s.bound.lookup name = some ⟨s.calls.length - 1, []⟩

variable {known known' : Scope → Prop} {more more' : Nat → List (String × Found)} {target : Target}
  {function specifier property : String}

theorem Adds.nil : Adds known [] [] fun _ => [] := by
  intro s hs _
  rw [extend_nil hs, List.append_nil]
  rfl

theorem Adds.append (hp : Adds known p calls more) (hq : Adds known' q calls' more')
    (hknown : ∀ s s', known s → s.extend calls (more s.calls.length) = some s' → known' s') :
    Adds known (p ++ q) (calls ++ calls') fun n => more n ++ more' (n + calls.length) := by
  intro s hs hk
  have hsplit := extend_extend s calls calls' (more s.calls.length)
    (more' (s.calls.length + calls.length))
  rw [run_append, hp s hs hk, ← hsplit]
  cases hext : s.extend calls (more s.calls.length) with
  | none => rfl
  | some t =>
    obtain ⟨hproper, hcalls, -⟩ := proper_of_extend hext
    have hlength : t.calls.length = s.calls.length + calls.length := by
      rw [hcalls, List.length_append]
    rw [Option.bind_some, Option.bind_some, hq t hproper (hknown s t hk hext), hlength]

theorem run_single (s : Scope) (stmt : Stmt) : s.run [stmt] = s.step stmt := by
  rw [run]
  cases s.step stmt <;> rfl

theorem adds_run : Adds Nothing [.run (.resolve function specifier)] [(function, specifier)]
    fun _ => [] := by
  intro s hs _
  rw [run_single, extend_nil hs]
  rfl

theorem adds_resolve (function specifier : String) (target : Target) :
    Adds Nothing [.declare target (.resolve function specifier)] [(function, specifier)]
      fun n => target.bindings ⟨n, []⟩ := by
  intro s hs _
  have hnext : Proper { s with calls := s.calls ++ [(function, specifier)] } := hs
  have hdeclare := declareAll_eq hnext (target.bindings ⟨s.calls.length, []⟩)
  rw [run_single]
  refine Eq.trans hdeclare ?_
  unfold extend
  rw [List.append_nil]

theorem adds_constant (name : String) (target : Target) :
    Adds (Latest name) [.declare target (.constant name)] []
      fun n => target.bindings ⟨n - 1, []⟩ := by
  intro s hs hk
  have heval : s.eval (.constant name) = some (⟨s.calls.length - 1, []⟩, s) := by
    rw [eval, hk]
    rfl
  rw [run_single, step, heval]
  exact declareAll_eq hs _

theorem adds_member (target : Target) :
    Adds (Latest name) [.declare target (.member name property)] []
      fun n => target.bindings ⟨n - 1, [property]⟩ := by
  intro s hs hk
  have heval : s.eval (.member name property) = some (⟨s.calls.length - 1, [property]⟩, s) := by
    rw [eval, hk]
    rfl
  rw [run_single, step, heval]
  exact declareAll_eq hs _

theorem latest_declared (h : s.extend [(function, specifier)] [(name, ⟨s.calls.length, []⟩)] =
    some s') : Latest name s' := by
  have hcalls := (proper_of_extend h).2.1
  rw [Latest, lookup_declared h, hcalls, List.length_append, List.length_singleton,
    Nat.add_sub_cancel]

theorem latest_kept (hk : Latest name s) (h : s.extend [] bindings = some s') : Latest name s' := by
  have hcalls := (proper_of_extend h).2.1
  rw [List.append_nil] at hcalls
  rw [Latest, lookup_extend hk h, hcalls]

end Scope

end ModuleHost.Wrap
