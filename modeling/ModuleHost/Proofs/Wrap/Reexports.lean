import Mathlib.Logic.Function.Basic
import ModuleHost.Proofs.Wrap.Exported
import ModuleHost.Proofs.Wrap.Placement

/-! Names that are exported from another module. The block that is written for a list of them resolves
the module once and assigns each exported name what the module has under the name that was listed. -/

namespace ModuleHost.Wrap

open ModuleHost.Syntax ModuleHost.Text ModuleHost.Wrap.Edit

/-! ### Blocks -/

/-- A block that takes properties of a module and assigns them to exports. -/
structure Block where
  fields : List Field
  function : String
  specifier : String
  assigned : List (String × String)

/-- The surroundings of a block: the calls so far, the constants in force, and the properties that the
object of exports has. -/
structure Surroundings where
  calls : List (String × String)
  bound : List (String × Found)
  property : String → Option Found

namespace Surroundings

/-- What is assigned to `__proto__` becomes the prototype of the object and none of its properties. -/
def assign (s : Surroundings) (name : String) (found : Found) : Surroundings :=
  if name = "__proto__" then s
  else { s with property := Function.update s.property name (some found) }

def assignEach (s : Surroundings) (writes : List (String × Found)) : Surroundings :=
  writes.foldl (fun s write => s.assign write.1 write.2) s

def names (s : Surroundings) : List String := s.bound.map Prod.fst

end Surroundings

namespace Block

def text (exports : String) (b : Block) : String :=
  (Effect.block b.fields (Expression.resolve b.function b.specifier).text b.assigned).text exports

def constants (b : Block) : List String := b.fields.map Field.name

def legal (b : Block) : Bool :=
  b.fields.all Field.legal && b.assigned.all fun a => (keyOf a.1).legal && isIdentifierName a.2

def assignAll (constants : List (String × Found)) :
    List (String × String) → Surroundings → Option Surroundings
  | [], s => some s
  | (exported, value) :: more, s =>
    (constants.lookup value).bind fun found => assignAll constants more (s.assign exported found)

/-- Runs a block. Its constants are in force up to its end. Neither they nor the constants around it
may hide the object of exports or the function. -/
def run (exports : String) (b : Block) (s : Surroundings) : Option Surroundings :=
  if exports ∈ b.constants ++ s.names ∨ b.function ∈ b.constants ++ s.names then none
  else
    (Scope.run ⟨s.calls, []⟩ [.declare (.parts b.fields) (.resolve b.function b.specifier)]).bind
      fun inner => assignAll (inner.bound ++ s.bound) b.assigned { s with calls := inner.calls }

end Block

/-! ### Lists of names -/

/-- A list of names that is exported from another module. -/
structure Reexport where
  item : Item
  source : String
  pairs : List (String × String)
  first : Nat

/-- The names in a list that is exported from another module, unless nothing is taken from there. -/
def listedPairs? : ItemShape → Option (String × List (String × String))
  | .exportList entries (some source) false =>
    let pairs := entries.filterMap ExportEntry.pair?
    if pairs.isEmpty || !(entries.filterMap ExportEntry.namespaceName?).isEmpty then none
    else some (source, pairs)
  | _ => none

def reexportsFrom (first : Nat) : List Item → List Reexport
  | [] => []
  | item :: more =>
    ((listedPairs? item.shape).map fun (source, pairs) => ⟨item, source, pairs, first⟩).toList ++
      reexportsFrom (first + temporariesIn item.shape) more

def reexports (m : Module) : List Reexport := reexportsFrom 0 m.items

namespace Reexport

def call (config : Config) (r : Reexport) : String × String :=
  resolver config (resolutionFor config r.source) r.source

def numbered (r : Reexport) : List ((String × String) × Nat) := r.pairs.zipIdx r.first

def temporaries (r : Reexport) : List String := r.numbered.map fun i => Setting.temporary i.2

def block (config : Config) (r : Reexport) : Block where
  fields := r.numbered.map fun i => ⟨some (keyOf i.1.1), Setting.temporary i.2⟩
  function := (r.call config).1
  specifier := (r.call config).2
  assigned := r.numbered.map fun i => (i.1.2, Setting.temporary i.2)

def edit (config : Config) (r : Reexport) : Edit :=
  ⟨r.item.span.lo, r.item.span.hi, (r.block config).text config.exportsIdent⟩

/-- The block is a program. Run anywhere, it resolves the module once, leaves each exported name with
what is found there under the name that was listed, and does nothing else. -/
structure Delivers (config : Config) (r : Reexport) : Prop where
  legal : (r.block config).legal = true
  runs : ∀ s : Surroundings, config.exportsIdent ∉ s.names → (r.call config).1 ∉ s.names →
    ∃ s', (r.block config).run config.exportsIdent s = some s' ∧
      s'.calls = s.calls ++ [r.call config] ∧ s'.bound = s.bound ∧
      (∀ pair ∈ r.pairs, s'.property pair.2 = some ⟨s.calls.length, [pair.1]⟩) ∧
      ∀ name, name ∉ r.pairs.map Prod.snd → s'.property name = s.property name

/-- What a list has to be like for that: its names can be written, none of them is exported as a
prototype or in two ways, and no temporary is called like what the block needs. -/
structure Deliverable (config : Config) (r : Reexport) : Prop where
  writable : ∀ pair ∈ r.pairs, (keyOf pair.1).legal = true ∧ (keyOf pair.2).legal = true
  own : ∀ pair ∈ r.pairs, pair.2 ≠ "__proto__"
  once : ∀ pair ∈ r.pairs, ∀ other ∈ r.pairs, pair.2 = other.2 → pair.1 = other.1
  visible : config.exportsIdent ∉ r.temporaries ∧ (r.call config).1 ∉ r.temporaries

instance (config : Config) (r : Reexport) : Decidable (r.Deliverable config) :=
  decidable_of_iff
    ((∀ pair ∈ r.pairs, (keyOf pair.1).legal = true ∧ (keyOf pair.2).legal = true) ∧
      (∀ pair ∈ r.pairs, pair.2 ≠ "__proto__") ∧
      (∀ pair ∈ r.pairs, ∀ other ∈ r.pairs, pair.2 = other.2 → pair.1 = other.1) ∧
      config.exportsIdent ∉ r.temporaries ∧ (r.call config).1 ∉ r.temporaries)
    ⟨fun ⟨h₁, h₂, h₃, h₄⟩ => ⟨h₁, h₂, h₃, h₄⟩, fun ⟨h₁, h₂, h₃, h₄⟩ => ⟨h₁, h₂, h₃, h₄⟩⟩

end Reexport

variable {config : Config} {path : String} {bodyLength first : Nat} {m : Module} {c : Converted}
  {r : Reexport} {s : Surroundings} {name exported value source : String} {found : Found}
  {writes : List (String × Found)} {item : Item} {items : List Item} {part : Contribution}
  {parts : List Contribution} {pairs : List (String × String)}

/-! ### Temporaries -/

theorem temporary_inj {n k : Nat} (h : Setting.temporary n = Setting.temporary k) : n = k := by
  have hsame : n.repr = k.repr := (String.append_right_inj "__reexport_").mp h
  have hread := congrArg (fun digits => Nat.ofDigitChars 10 digits.toList 0) hsame
  simpa only [Nat.toList_repr, Nat.ofDigitChars_ten_toDigits] using hread

theorem digit_identifierPart {c : Char} (h : c.isDigit = true) : isIdentifierPart c = true := by
  have hrange : 48 ≤ c.toNat ∧ c.toNat ≤ 57 := by simpa [Char.isDigit, UInt32.le_iff_toNat_le] using h
  have hascii : c.toNat < 0x80 := by omega
  rw [isIdentifierPart, if_pos hascii, Char.isAlphanum, h]
  simp

theorem temporary_name (n : Nat) : isIdentifierName (Setting.temporary n) = true := by
  have hchars : (Setting.temporary n).toList =
      '_' :: ("_reexport_".toList ++ Nat.toDigits 10 n) := by
    simp [Setting.temporary]
  have hstem : "_reexport_".toList.all isIdentifierPart = true := by decide
  have hdigits : (Nat.toDigits 10 n).all isIdentifierPart = true := by
    refine List.all_eq_true.mpr fun c hc => digit_identifierPart ?_
    exact Nat.isDigit_of_mem_toDigits (by decide) (by decide) hc
  have hstart : isIdentifierStart '_' = true := by decide
  rw [isIdentifierName, hchars]
  dsimp only
  rw [hstart, List.all_append, hstem, hdigits]
  rfl

namespace Reexport

theorem temporaries_eq (r : Reexport) :
    r.temporaries = (List.range' r.first r.pairs.length).map Setting.temporary := by
  have hnumbers : r.numbered.map Prod.snd = List.range' r.first r.pairs.length :=
    List.zipIdx_map_snd ..
  rw [← hnumbers, List.map_map]
  rfl

theorem temporaries_nodup (r : Reexport) : r.temporaries.Nodup := by
  rw [temporaries_eq]
  exact List.Nodup.map (fun _ _ => temporary_inj) List.nodup_range'

theorem block_constants (config : Config) (r : Reexport) :
    (r.block config).constants = r.temporaries := List.map_map ..

theorem numbered_pairs (r : Reexport) : r.numbered.map Prod.fst = r.pairs := List.zipIdx_map_fst ..

end Reexport

/-! ### Assignments -/

namespace Surroundings

theorem assign_of_ne (h : name ≠ exported) : (s.assign exported found).property name =
    s.property name := by
  unfold assign
  split
  · rfl
  · exact Function.update_of_ne h _ _

theorem assign_self (h : name ≠ "__proto__") :
    (s.assign name found).property name = some found := by
  rw [assign, if_neg h]
  exact Function.update_self _ _ _

theorem assign_prototype : (s.assign exported found).property "__proto__" =
    s.property "__proto__" := by
  unfold assign
  split
  · rfl
  · rename_i h
    exact Function.update_of_ne (Ne.symm h) _ _

theorem assign_keeps (s : Surroundings) (exported : String) (found : Found) :
    (s.assign exported found).calls = s.calls ∧ (s.assign exported found).bound = s.bound := by
  unfold assign
  split
  · exact ⟨rfl, rfl⟩
  · exact ⟨rfl, rfl⟩

theorem assignEach_keeps (s : Surroundings) (writes : List (String × Found)) :
    (s.assignEach writes).calls = s.calls ∧ (s.assignEach writes).bound = s.bound ∧
      (s.assignEach writes).property "__proto__" = s.property "__proto__" := by
  induction writes generalizing s with
  | nil => exact ⟨rfl, rfl, rfl⟩
  | cons write writes ih =>
    obtain ⟨hcalls, hbound, hprototype⟩ := ih (s.assign write.1 write.2)
    obtain ⟨hcalls', hbound'⟩ := assign_keeps s write.1 write.2
    exact ⟨hcalls.trans hcalls', hbound.trans hbound', hprototype.trans assign_prototype⟩

theorem assignEach_other (h : name ∉ writes.map Prod.fst) :
    (s.assignEach writes).property name = s.property name := by
  induction writes generalizing s with
  | nil => rfl
  | cons write writes ih =>
    obtain ⟨hhead, htail⟩ := not_or.mp (mt List.mem_cons.mpr h)
    exact (ih htail).trans (assign_of_ne hhead)

theorem assignEach_property (hname : name ≠ "__proto__") (hmem : (name, found) ∈ writes)
    (hsame : ∀ write ∈ writes, write.1 = name → write.2 = found) :
    (s.assignEach writes).property name = some found := by
  induction writes generalizing s with
  | nil => cases hmem
  | cons write writes ih =>
    obtain ⟨hfirst, hmore⟩ := List.forall_mem_cons.mp hsame
    by_cases hlater : (name, found) ∈ writes
    · exact ih hlater hmore
    · -- the first assignment is the only one for the name
      obtain rfl : (name, found) = write := (List.mem_cons.mp hmem).resolve_right hlater
      have hlast : name ∉ writes.map Prod.fst := by
        intro hagain
        obtain ⟨⟨_, other⟩, hother, rfl⟩ := List.mem_map.mp hagain
        obtain rfl := hmore _ hother rfl
        exact hlater hother
      exact (assignEach_other hlast).trans (assign_self hname)

end Surroundings

theorem lookup_of_nodup {α β : Type} [BEq α] [LawfulBEq α] {l : List (α × β)} {a : α} {b : β}
    (hnodup : (l.map Prod.fst).Nodup) (h : (a, b) ∈ l) : l.lookup a = some b := by
  obtain ⟨before, behind, rfl⟩ := List.append_of_mem h
  refine List.lookup_eq_some_iff.mpr ⟨before, behind, rfl, fun p hp => bne_iff_ne.mpr ?_⟩
  rw [List.map_append, List.nodup_append] at hnodup
  have hne := hnodup.2.2 p.1 (List.mem_map_of_mem hp) a (List.mem_map_of_mem List.mem_cons_self)
  exact hne.symm

theorem assignAll_eq {ι : Type} {constants : List (String × Found)} {l : List ι}
    {value : ι → String} {found : ι → Found} (exported : ι → String)
    (h : ∀ i ∈ l, constants.lookup (value i) = some (found i)) (s : Surroundings) :
    Block.assignAll constants (l.map fun i => (exported i, value i)) s =
      some (s.assignEach (l.map fun i => (exported i, found i))) := by
  induction l generalizing s with
  | nil => rfl
  | cons i l ih =>
    obtain ⟨hi, hl⟩ := List.forall_mem_cons.mp h
    rw [List.map_cons, Block.assignAll, hi, Option.bind_some, ih hl]
    rfl

/-! ### What a block does -/

namespace Reexport

theorem block_text (config : Config) (r : Reexport) : (r.block config).text config.exportsIdent =
    (blockOf (awaited config r.source) r.first r.pairs).text config.exportsIdent := by
  have hcall : (Expression.resolve (r.call config).1 (r.call config).2).text =
      awaited config r.source := by
    unfold call resolver awaited resolutionCall
    cases resolutionFor config r.source <;> rfl
  show (Effect.block _ (Expression.resolve (r.call config).1 (r.call config).2).text _).text _ = _
  rw [hcall]
  rfl

theorem keyOf_property (name : String) : (keyOf name).property = name := by
  unfold keyOf
  split <;> rfl

def bindings (r : Reexport) (n : Nat) : List (String × Found) :=
  r.numbered.map fun i => (Setting.temporary i.2, ⟨n, [i.1.1]⟩)

theorem bindings_eq (config : Config) (r : Reexport) (n : Nat) :
    (Target.parts (r.block config).fields).bindings ⟨n, []⟩ = r.bindings n := by
  show ((r.numbered.map _).map _) = _
  rw [List.map_map]
  refine List.map_congr_left fun i _ => ?_
  have hproperty := keyOf_property i.1.1
  show (Setting.temporary i.2, (⟨n, [] ++ [(keyOf i.1.1).property]⟩ : Found)) = _
  rw [hproperty]
  rfl

theorem bindings_nodup (r : Reexport) (n : Nat) : ((r.bindings n).map Prod.fst).Nodup := by
  have hnames : (r.bindings n).map Prod.fst = r.temporaries := List.map_map ..
  rw [hnames]
  exact r.temporaries_nodup

theorem block_resolves (config : Config) (r : Reexport) (calls : List (String × String)) :
    Scope.run ⟨calls, []⟩ [.declare (.parts (r.block config).fields)
      (.resolve (r.call config).1 (r.call config).2)] =
        some ⟨calls ++ [r.call config], r.bindings calls.length⟩ := by
  have hadds := Scope.adds_resolve (r.call config).1 (r.call config).2
    (.parts (r.block config).fields) ⟨calls, []⟩ List.nodup_nil trivial
  dsimp only at hadds
  rw [hadds, bindings_eq, Scope.extend, List.nil_append, if_pos (r.bindings_nodup _)]

def assignments (r : Reexport) (n : Nat) : List (String × Found) :=
  r.pairs.map fun pair => (pair.2, ⟨n, [pair.1]⟩)

theorem run_block (hvisible : config.exportsIdent ∉ r.temporaries ∧ (r.call config).1 ∉ r.temporaries)
    (s : Surroundings) (hexports : config.exportsIdent ∉ s.names)
    (hfunction : (r.call config).1 ∉ s.names) :
    (r.block config).run config.exportsIdent s =
      some ({ s with calls := s.calls ++ [r.call config] }.assignEach
        (r.assignments s.calls.length)) := by
  have hfree : ¬(config.exportsIdent ∈ (r.block config).constants ++ s.names ∨
      (r.block config).function ∈ (r.block config).constants ++ s.names) := by
    rw [block_constants, List.mem_append, List.mem_append]
    rintro ((h | h) | (h | h))
    · exact hvisible.1 h
    · exact hexports h
    · exact hvisible.2 h
    · exact hfunction h
  -- no two entries have a temporary in common, so each is found again
  have hlookup : ∀ i ∈ r.numbered, (r.bindings s.calls.length ++ s.bound).lookup
      (Setting.temporary i.2) = some ⟨s.calls.length, [i.1.1]⟩ := by
    intro i hi
    have hinner := lookup_of_nodup (r.bindings_nodup s.calls.length) (List.mem_map_of_mem hi)
    rw [List.lookup_append, hinner, Option.some_or]
  have hwrites : r.numbered.map (fun i => (i.1.2, (⟨s.calls.length, [i.1.1]⟩ : Found))) =
      r.assignments s.calls.length := by
    rw [assignments, ← r.numbered_pairs, List.map_map]
    rfl
  have hassigned := assignAll_eq (fun i => i.1.2) hlookup
    { s with calls := s.calls ++ [r.call config] }
  rw [hwrites] at hassigned
  rw [Block.run, if_neg hfree]
  show (Scope.run ⟨s.calls, []⟩ [.declare (.parts (r.block config).fields)
    (.resolve (r.call config).1 (r.call config).2)]).bind _ = _
  rw [block_resolves]
  exact hassigned

theorem block_legal (config : Config) (r : Reexport) : (r.block config).legal = true ↔
    ∀ pair ∈ r.pairs, (keyOf pair.1).legal = true ∧ (keyOf pair.2).legal = true := by
  have hfields : (r.block config).fields.all Field.legal = true ↔
      ∀ i ∈ r.numbered, (keyOf i.1.1).legal = true := by
    rw [List.all_eq_true]
    refine List.forall_mem_map.trans (forall₂_congr fun i _ => ?_)
    rw [Field.legal, temporary_name, Bool.and_true, Option.all_some]
  have hassigned : ((r.block config).assigned.all fun a =>
      (keyOf a.1).legal && isIdentifierName a.2) = true ↔
        ∀ i ∈ r.numbered, (keyOf i.1.2).legal = true := by
    rw [List.all_eq_true]
    refine List.forall_mem_map.trans (forall₂_congr fun i _ => ?_)
    rw [temporary_name, Bool.and_true]
  have hpairs : (∀ pair ∈ r.pairs, (keyOf pair.1).legal = true ∧ (keyOf pair.2).legal = true) ↔
      ∀ i ∈ r.numbered, (keyOf i.1.1).legal = true ∧ (keyOf i.1.2).legal = true := by
    rw [← r.numbered_pairs, List.forall_mem_map]
  rw [Block.legal, Bool.and_eq_true, hfields, hassigned, hpairs]
  exact ⟨fun h i hi => ⟨h.1 i hi, h.2 i hi⟩, fun h => ⟨fun i hi => (h i hi).1, fun i hi => (h i hi).2⟩⟩

theorem Deliverable.delivers (h : r.Deliverable config) : r.Delivers config := by
  refine ⟨(r.block_legal config).mpr h.writable, fun s hexports hfunction => ?_⟩
  obtain ⟨hcalls, hbound, -⟩ := Surroundings.assignEach_keeps
    { s with calls := s.calls ++ [r.call config] } (r.assignments s.calls.length)
  refine ⟨_, run_block h.visible s hexports hfunction, hcalls, hbound, fun pair hpair => ?_,
    fun name hname => ?_⟩
  · refine Surroundings.assignEach_property (h.own pair hpair) (List.mem_map_of_mem hpair) ?_
    intro write hwrite hsame
    obtain ⟨other, hother, rfl⟩ := List.mem_map.mp hwrite
    rw [h.once other hother pair hpair hsame]
  · refine Surroundings.assignEach_other ?_
    rwa [assignments, List.map_map]

theorem Delivers.deliverable (h : r.Delivers config) : r.Deliverable config := by
  -- what the block does where nothing has happened yet is enough
  obtain ⟨s', hrun, -, -, hproperty, -⟩ := h.runs ⟨[], [], fun _ => none⟩ List.not_mem_nil
    List.not_mem_nil
  have hvisible : config.exportsIdent ∉ r.temporaries ∧ (r.call config).1 ∉ r.temporaries := by
    rw [← not_or]
    intro hhidden
    rw [← block_constants config, ← List.append_nil (r.block config).constants] at hhidden
    have hstuck : (r.block config).run config.exportsIdent ⟨[], [], fun _ => none⟩ = none :=
      if_pos hhidden
    rw [hstuck] at hrun
    cases hrun
  have hran := run_block hvisible ⟨[], [], fun _ => none⟩ List.not_mem_nil List.not_mem_nil
  obtain rfl := Option.some.inj (hrun.symm.trans hran)
  refine ⟨(r.block_legal config).mp h.legal, fun pair hpair hprototype => ?_,
    fun pair hpair other hother hsame => ?_, hvisible⟩
  · have hfound := hproperty pair hpair
    rw [hprototype, (Surroundings.assignEach_keeps _ _).2.2] at hfound
    cases hfound
  · have hfound := hproperty pair hpair
    rw [hsame, hproperty other hother] at hfound
    injection hfound with hfound
    injection hfound with hcall hpath
    exact (List.singleton_inj.mp hpath).symm

theorem delivers_iff : r.Delivers config ↔ r.Deliverable config :=
  ⟨Delivers.deliverable, Deliverable.delivers⟩

end Reexport

/-! ### Modules -/

theorem listedPairs_shape {shape : ItemShape} (h : listedPairs? shape = some (source, pairs)) :
    ∃ entries, shape = .exportList entries (some source) false ∧
      entries.filterMap ExportEntry.pair? = pairs ∧ pairs ≠ [] ∧
      entries.filterMap ExportEntry.namespaceName? = [] := by
  unfold listedPairs? at h
  split at h
  · rename_i entries source
    dsimp only at h
    split at h
    · cases h
    · rename_i hsome
      rw [Bool.or_eq_true, Bool.not_eq_true', not_or, Bool.not_eq_false] at hsome
      obtain ⟨hpairs, hnamespaces⟩ := hsome
      cases h
      exact ⟨entries, rfl, rfl, fun hnil => hpairs (List.isEmpty_iff.mpr hnil),
        List.isEmpty_iff.mp hnamespaces⟩
  · cases h

theorem listedPairs_temporaries {shape : ItemShape} (h : listedPairs? shape = some (source, pairs)) :
    temporariesIn shape = pairs.length := by
  obtain ⟨entries, rfl, rfl, -⟩ := listedPairs_shape h
  rfl

theorem convertItem_temporaries {s : Setting} (h : s.convertItem first item = .ok part) :
    part.temporaries = temporariesIn item.shape := by
  obtain ⟨each, heach, -⟩ := convertItem_renders h
  have hsame : s.convertItem first item = .ok (each s.config.exportsIdent) := (heach _).1
  obtain rfl := Except.ok.inj (h.symm.trans hsame)
  exact (heach _).2

theorem listed_edits {s : Setting} (h : listedPairs? item.shape = some (source, pairs))
    (hpart : s.convertItem first item = .ok part) :
    part.edits = [Reexport.edit s.config ⟨item, source, pairs, first⟩] := by
  obtain ⟨entries, hshape, rfl, hsome, hnone⟩ := listedPairs_shape h
  have hconvert : s.convertItem first item =
      .ok (s.convertReexports first item.span entries source) := by
    unfold Setting.convertItem
    rw [hshape]
    rfl
  obtain rfl := Except.ok.inj (hpart.symm.trans hconvert)
  have hpairs : (entries.filterMap ExportEntry.pair?).isEmpty = false :=
    List.isEmpty_eq_false_iff.mpr hsome
  unfold Setting.convertReexports
  dsimp only
  rw [hnone, hpairs, Bool.false_and, if_neg Bool.false_ne_true, if_neg Bool.false_ne_true,
    List.map_nil, List.nil_append, String.intercalate_singleton, reexportBlock_text,
    resolutionOf_awaited, (resolutionOf_found s source _).1, Reexport.edit, Reexport.block_text]

theorem Contributes.reexports {s : Setting} (h : Contributes s first items parts) :
    ∀ r ∈ reexportsFrom first items, r.edit s.config ∈ parts.flatMap Contribution.edits := by
  induction h with
  | nil => exact nofun
  | cons hpart _ ih =>
    rename_i first item items part parts _
    rw [convertItem_temporaries hpart] at ih
    intro r hr
    rw [List.flatMap_cons, List.mem_append]
    rcases List.mem_append.mp hr with hr | hr
    · obtain ⟨⟨source, pairs⟩, hlisted, rfl⟩ := Option.map_eq_some_iff.mp (Option.mem_toList.mp hr)
      left
      rw [listed_edits hlisted hpart]
      exact List.mem_singleton_self _
    · exact .inr (ih r hr)

theorem reexportsFrom_lists (first : Nat) (items : List Item) :
    (reexportsFrom first items).map (fun r => (r.item, r.source, r.pairs)) =
      items.filterMap fun item => (listedPairs? item.shape).map (item, ·) := by
  induction items generalizing first with
  | nil => rfl
  | cons item items ih =>
    rw [reexportsFrom, List.map_append, ih]
    cases hlisted : listedPairs? item.shape with
    | none => rw [List.filterMap_cons_none (by rw [hlisted]; rfl)]; rfl
    | some pairs => rw [List.filterMap_cons_some (by rw [hlisted]; rfl)]; rfl

theorem reexportsFrom_temporaries (first : Nat) (items : List Item) :
    ((reexportsFrom first items).flatMap Reexport.temporaries).Sublist
      ((List.range' first (temporariesBefore items)).map Setting.temporary) := by
  induction items generalizing first with
  | nil => exact List.Sublist.refl _
  | cons item items ih =>
    have hsplit : List.range' first (temporariesBefore (item :: items)) =
        List.range' first (temporariesIn item.shape) ++
          List.range' (first + temporariesIn item.shape) (temporariesBefore items) := by
      rw [temporariesBefore, List.range'_append_1]
    rw [reexportsFrom, List.flatMap_append, hsplit, List.map_append]
    refine List.Sublist.append ?_ (ih _)
    cases hlisted : listedPairs? item.shape with
    | none => exact List.nil_sublist _
    | some listed =>
      obtain ⟨source, pairs⟩ := listed
      rw [listedPairs_temporaries hlisted]
      have hown := Reexport.temporaries_eq ⟨item, source, pairs, first⟩
      show ([Reexport.mk item source pairs first].flatMap Reexport.temporaries).Sublist _
      rw [List.flatMap_singleton, hown]

theorem reexports_nodup (config : Config) (m : Module) :
    ((reexports m).flatMap fun r => (r.block config).constants).Nodup := by
  have hall : ((List.range' 0 (temporariesBefore m.items)).map Setting.temporary).Nodup :=
    List.Nodup.map (fun _ _ => temporary_inj) List.nodup_range'
  have hconstants : (fun r : Reexport => (r.block config).constants) = Reexport.temporaries :=
    funext (Reexport.block_constants config)
  rw [hconstants]
  exact (reexportsFrom_temporaries 0 m.items).nodup hall

/-- Each list of names that is exported from another module becomes a block, and the blocks of a module
have no temporary in common. A block delivers what its list asks for exactly if every name that is
written as it is can be written so, no name is exported as a prototype or in two ways, and no temporary
hides what the block needs. -/
theorem reexports_deliver (h : (convert config path bodyLength m).1 = .ok c) :
    (reexports m).map (fun r => (r.item, r.source, r.pairs)) =
      m.items.filterMap (fun item => (listedPairs? item.shape).map (item, ·)) ∧
    (∃ edits, applyAll (edits ++ metaEdits config m.metas) (bodyText m bodyLength) =
        .ok c.body.toList ∧ ∀ r ∈ reexports m, r.edit config ∈ edits) ∧
    (∀ r ∈ reexports m, r.Delivers config ↔ r.Deliverable config) ∧
    ((reexports m).flatMap fun r => (r.block config).constants).Nodup := by
  obtain ⟨parts, hparts⟩ := convert_composed h
  refine ⟨reexportsFrom_lists 0 m.items, ⟨_, hparts.body, hparts.items.reexports⟩,
    fun r _ => Reexport.delivers_iff, reexports_nodup config m⟩

theorem reexports_deliver_swapped : ∃ m c,
    Module.parse "export\x7ba as b,b as a,default as 'c-d',a as e\x7dfrom'm';export\x7bx\x7dfrom'n'" =
      .ok m ∧
    (convert {} "/a.js" 69 m).1 = .ok c ∧
    (reexports m).map (fun r => (r.source, r.pairs, r.temporaries)) =
      [("m", [("a", "b"), ("b", "a"), ("default", "c-d"), ("a", "e")],
          ["__reexport_0", "__reexport_1", "__reexport_2", "__reexport_3"]),
        ("n", [("x", "x")], ["__reexport_4"])] ∧
    ∀ r ∈ reexports m, r.Delivers {} := by
  obtain ⟨m, hparse, hm⟩ : ∃ m,
      Module.parse "export\x7ba as b,b as a,default as 'c-d',a as e\x7dfrom'm';export\x7bx\x7dfrom'n'" =
        .ok m ∧
      (decide ((reexports m).map (fun r => (r.source, r.pairs, r.temporaries)) =
          [("m", [("a", "b"), ("b", "a"), ("default", "c-d"), ("a", "e")],
              ["__reexport_0", "__reexport_1", "__reexport_2", "__reexport_3"]),
            ("n", [("x", "x")], ["__reexport_4"])] ∧
          ∀ r ∈ reexports m, r.Deliverable {}) &&
        recordsInOrder {} "/a.js" 69 m fun _ => true) = true :=
    exists_of_answers (by decide +kernel)
  obtain ⟨hlists, hconvert⟩ := (Bool.and_eq_true _ _).mp hm
  obtain ⟨hlists, hdeliverable⟩ := of_decide_eq_true hlists
  obtain ⟨c, hc, -⟩ := convert_recorded hconvert
  obtain ⟨-, -, hdelivers, -⟩ := reexports_deliver hc
  exact ⟨m, c, hparse, hc, hlists, fun r hr => (hdelivers r hr).mpr (hdeliverable r hr)⟩

/-- A name that is not one in the language becomes a key as it is. -/
theorem superscript_reexported : ∃ m c r,
    Module.parse "export \x7b 'a²' as b \x7d from 'm'" = .ok m ∧
    (convert {} "/a.js" 30 m).1 = .ok c ∧
    c.body =
      "\x7b const \x7b a²: __reexport_0 \x7d = await __qjs_require(\"m\"); exports.b = __reexport_0; \x7d" ∧
    reexports m = [r] ∧ (Reexport.block {} r).legal = false := by
  obtain ⟨m, hparse, hm⟩ : ∃ m, Module.parse "export \x7b 'a²' as b \x7d from 'm'" = .ok m ∧
      (decide ((reexports m).map (fun r => (r.block {}).legal) = [false]) &&
        answers (fun c => decide (c.body =
          "\x7b const \x7b a²: __reexport_0 \x7d = await __qjs_require(\"m\"); exports.b = __reexport_0; \x7d"))
          (convert {} "/a.js" 30 m).1) = true := exists_of_answers (by decide +kernel)
  obtain ⟨hlegal, hanswers⟩ := (Bool.and_eq_true _ _).mp hm
  obtain ⟨c, hc, hbody⟩ := exists_of_answers hanswers
  obtain ⟨r, hr, hnot⟩ := List.map_eq_singleton_iff.mp (of_decide_eq_true hlegal)
  exact ⟨m, c, r, hparse, hc, of_decide_eq_true hbody, hr, hnot⟩

end ModuleHost.Wrap
