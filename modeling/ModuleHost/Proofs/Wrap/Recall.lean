import Mathlib.Data.List.Nodup
import Mathlib.Data.Set.Card
import ModuleHost.Wrap.Cache

/-! What a transformer remembers is read off the calls that were made of it: as long as no two texts
have one digest, its answers are those of the transform itself. -/

namespace ModuleHost.Wrap.Transformer

/-- What can be asked of a transformer. -/
inductive Call where
  | transform (code path : String)
  | isCached (path code : String)
  | invalidate (path : String)
  | invalidateAll

namespace Call

def texts : Call → List String
  | .transform code _ | .isCached _ code => [code]
  | .invalidate _ | .invalidateAll => []

end Call

def serve (t : Transformer) : Call → Transformer
  | .transform code path => (t.transform code path).2
  | .isCached _ _ => t
  | .invalidate path => (t.invalidate path).2
  | .invalidateAll => t.invalidateAll

/-- A new transformer of which some calls have been made. -/
def after (config : Config) (calls : List Call) : Transformer := calls.foldl serve { config }

def Succeeds (config : Config) (code path : String) : Prop :=
  ∃ output, (Wrap.transform config code path).1 = .ok output

theorem succeeds_iff (config : Config) (code path : String) :
    Succeeds config code path ↔ (Wrap.transform config code path).1.toBool = true := by
  unfold Succeeds
  cases (Wrap.transform config code path).1 <;> simp [Except.toBool]

instance (config : Config) (code path : String) : Decidable (Succeeds config code path) :=
  decidable_of_iff _ (succeeds_iff config code path).symm

def Call.Displaces (config : Config) (path : String) : Call → Prop
  | .transform code p => p = path ∧ Succeeds config code p
  | .isCached _ _ => False
  | .invalidate p => p = path
  | .invalidateAll => True

instance (config : Config) (path : String) :
    (call : Call) → Decidable (call.Displaces config path)
  | .transform code p => inferInstanceAs (Decidable (p = path ∧ Succeeds config code p))
  | .isCached _ _ => inferInstanceAs (Decidable False)
  | .invalidate p => inferInstanceAs (Decidable (p = path))
  | .invalidateAll => inferInstanceAs (Decidable True)

/-- The last transform of a path that succeeded since the path was last forgotten was of this
text. -/
def LastText (config : Config) (calls : List Call) (path code : String) : Prop :=
  ∃ before behind, calls = before ++ Call.transform code path :: behind ∧
    Succeeds config code path ∧ ∀ call ∈ behind, ¬call.Displaces config path

variable {config : Config} {calls : List Call} {call : Call} {path p code : String}
  {t : Transformer} {c : Cached}

theorem after_snoc : after config (calls ++ [call]) = (after config calls).serve call := by
  simp [after]

theorem not_lastText_nil : ¬LastText config [] path code := by
  rintro ⟨before, behind, heq, -⟩
  simp at heq

theorem lastText_snoc : LastText config (calls ++ [call]) path code ↔
    (call = .transform code path ∧ Succeeds config code path) ∨
      (LastText config calls path code ∧ ¬call.Displaces config path) := by
  constructor
  · rintro ⟨before, behind, heq, hok, hbehind⟩
    rcases List.eq_nil_or_concat behind with rfl | ⟨behind, last, rfl⟩
    · obtain ⟨-, hlast⟩ := List.append_inj' heq rfl
      exact .inl ⟨by simpa using hlast, hok⟩
    · rw [List.concat_eq_append, ← List.cons_append, ← List.append_assoc] at heq
      obtain ⟨rfl, hlast⟩ := List.append_inj' heq rfl
      obtain rfl : call = last := by simpa using hlast
      have hearlier : ∀ call ∈ behind, ¬call.Displaces config path :=
        fun call hmem => hbehind call (by simp [hmem])
      exact .inr ⟨⟨before, behind, rfl, hok, hearlier⟩, hbehind call (by simp)⟩
  · rintro (⟨rfl, hok⟩ | ⟨⟨before, behind, rfl, hok, hbehind⟩, hnot⟩)
    · exact ⟨calls, [], rfl, hok, by simp⟩
    · refine ⟨before, behind ++ [call], by simp, hok, ?_⟩
      simpa [or_imp, forall_and] using ⟨hbehind, hnot⟩

theorem lastText_undisplaced (h : ¬call.Displaces config path) :
    LastText config (calls ++ [call]) path code ↔ LastText config calls path code := by
  rw [lastText_snoc]
  constructor
  · rintro (⟨rfl, hok⟩ | ⟨hlast, -⟩)
    · exact absurd ⟨rfl, hok⟩ h
    · exact hlast
  · exact fun hlast => .inr ⟨hlast, h⟩

theorem lastText_transform {text : String} (hok : Succeeds config text path) :
    LastText config (calls ++ [Call.transform text path]) path code ↔ code = text := by
  rw [lastText_snoc]
  constructor
  · rintro (⟨heq, -⟩ | ⟨-, hnot⟩)
    · cases heq
      rfl
    · exact absurd ⟨rfl, hok⟩ hnot
  · rintro rfl
    exact .inl ⟨rfl, hok⟩

theorem LastText.mem_texts (h : LastText config calls path code) :
    code ∈ calls.flatMap Call.texts := by
  obtain ⟨before, behind, rfl, -⟩ := h
  simp [Call.texts]

theorem LastText.succeeds (h : LastText config calls path code) : Succeeds config code path := by
  obtain ⟨-, -, -, hok, -⟩ := h
  exact hok

theorem find?_forget : (t.forget path).find? p = if p = path then none else t.find? p := by
  unfold find? forget
  rw [List.find?_filter]
  split
  · rename_i hp
    subst hp
    simp
  · rename_i hp
    congr 2
    funext e
    by_cases he : e.1 = p
    · simp [he, hp]
    · simp [he]

theorem find?_remember : (t.remember path c).find? p = if p = path then some c else t.find? p := by
  by_cases hp : p = path
  · simp [find?, remember, hp]
  · have hforget : (t.forget path).find? p = t.find? p := by rw [find?_forget, if_neg hp]
    rw [if_neg hp, ← hforget]
    simp [find?, remember, Ne.symm hp]

theorem find?_isSome : (t.find? path).isSome ↔ path ∈ t.results.map Prod.fst := by
  simp [find?]

theorem hit?_eq_some {output : Output} : t.hit? path code = some output ↔
    t.find? path = some ⟨Digest.ofText code, output⟩ := by
  unfold hit?
  rw [Option.map_eq_some_iff]
  constructor
  · rintro ⟨⟨digest, output⟩, hc, rfl⟩
    obtain ⟨hfind, hdigest⟩ := Option.filter_eq_some_iff.mp hc
    obtain rfl : digest = Digest.ofText code := of_decide_eq_true hdigest
    exact hfind
  · intro h
    exact ⟨⟨Digest.ofText code, output⟩, by simp [h], rfl⟩

theorem transform_of_error {fault : TransformError}
    (h : (t.transform code path).1.1 = .error fault) : (t.transform code path).2 = t := by
  unfold transform at h ⊢
  cases hhit : t.hit? path code with
  | some output => rfl
  | none =>
    rw [hhit] at h
    rcases hrun : Wrap.transform t.config code path with ⟨fault | output, events⟩
    · rfl
    · rw [hrun] at h
      cases h

theorem find?_transform_ok {output : Output} (h : (t.transform code path).1.1 = .ok output) :
    (t.transform code path).2.find? path = some ⟨Digest.ofText code, output⟩ := by
  unfold transform at h ⊢
  cases hhit : t.hit? path code with
  | some result =>
    rw [hhit] at h
    obtain rfl : result = output := Except.ok.inj h
    exact hit?_eq_some.mp hhit
  | none =>
    rw [hhit] at h
    rcases hrun : Wrap.transform t.config code path with ⟨fault | result, events⟩
    · rw [hrun] at h
      cases h
    · rw [hrun] at h
      obtain rfl : result = output := Except.ok.inj h
      simp only []
      rw [find?_remember, if_pos rfl]

theorem find?_transform_ne (code : String) (hp : p ≠ path) :
    (t.transform code path).2.find? p = t.find? p := by
  unfold transform
  cases hhit : t.hit? path code with
  | some result => rfl
  | none =>
    rcases Wrap.transform t.config code path with ⟨fault | result, events⟩
    · rfl
    · simp only []
      rw [find?_remember, if_neg hp]

theorem transform_of_isCached (h : t.isCached path code = true) :
    (t.transform code path).2 = t := by
  obtain ⟨output, hhit⟩ := Option.isSome_iff_exists.mp h
  rw [transform, hhit]

/-- A transformer has, for every path, the result of the last text of the path and nothing else. -/
structure Faithful (config : Config) (calls : List Call) (t : Transformer) : Prop where
  configured : t.config = config
  distinct : (t.results.map Prod.fst).Nodup
  found : ∀ path c, t.find? path = some c ↔ ∃ code, LastText config calls path code ∧
    c.digest = Digest.ofText code ∧ (Wrap.transform config code path).1 = .ok c.output

namespace Faithful

theorem new : Faithful config [] { config } where
  configured := rfl
  distinct := List.nodup_nil
  found := by simp [find?, not_lastText_nil]

theorem unchanged (h : Faithful config calls t)
    (hlast : ∀ path code, LastText config (calls ++ [call]) path code ↔
      LastText config calls path code) : Faithful config (calls ++ [call]) t where
  configured := h.configured
  distinct := h.distinct
  found := by simpa only [hlast] using h.found

theorem invalidateAll (h : Faithful config calls t) :
    Faithful config (calls ++ [Call.invalidateAll]) t.invalidateAll where
  configured := h.configured
  distinct := List.nodup_nil
  found := by simp [Transformer.invalidateAll, find?, lastText_snoc, Call.Displaces]

theorem invalidate (h : Faithful config calls t) (path : String) :
    Faithful config (calls ++ [Call.invalidate path]) (t.invalidate path).2 where
  configured := h.configured
  distinct := h.distinct.sublist (List.filter_sublist.map _)
  found := by
    intro p c
    rw [Transformer.invalidate, find?_forget]
    by_cases hp : p = path
    · simp [lastText_snoc, Call.Displaces, hp]
    · simp [lastText_snoc, Call.Displaces, hp, Ne.symm hp, h.found]

theorem remember (h : Faithful config calls t) {output : Output}
    (hok : (Wrap.transform config code path).1 = .ok output) :
    Faithful config (calls ++ [Call.transform code path])
      (t.remember path ⟨Digest.ofText code, output⟩) where
  configured := h.configured
  distinct := by
    refine List.nodup_cons.mpr ⟨?_, h.distinct.sublist (List.filter_sublist.map _)⟩
    simp [forget]
  found := by
    intro p c
    have hsucceeds : Succeeds config code path := ⟨output, hok⟩
    rw [find?_remember]
    by_cases hp : p = path
    · subst hp
      simp only [lastText_transform hsucceeds, exists_eq_left, hok, if_true, Option.some.injEq,
        Except.ok.injEq]
      obtain ⟨digest, result⟩ := c
      simp [eq_comm]
    · have hother : ¬(Call.transform code path).Displaces config p := fun h => hp h.1.symm
      rw [if_neg hp, h.found]
      simp only [lastText_undisplaced hother]

/-- Where digests tell the texts apart, a result is remembered for exactly the last text. -/
theorem hit?_iff (h : Faithful config calls t) {texts : Set String}
    (hdigest : Set.InjOn Digest.ofText texts)
    (htexts : ∀ text ∈ calls.flatMap Call.texts, text ∈ texts) (hcode : code ∈ texts)
    (output : Output) : t.hit? path code = some output ↔
      LastText config calls path code ∧ (Wrap.transform config code path).1 = .ok output := by
  rw [hit?_eq_some, h.found]
  constructor
  · rintro ⟨code', hlast, hsame, hok⟩
    obtain rfl := hdigest hcode (htexts code' hlast.mem_texts) hsame
    exact ⟨hlast, hok⟩
  · rintro ⟨hlast, hok⟩
    exact ⟨code, hlast, rfl, hok⟩

theorem find?_isSome_iff (h : Faithful config calls t) :
    (t.find? path).isSome ↔ ∃ code, LastText config calls path code := by
  rw [Option.isSome_iff_exists]
  simp only [h.found]
  constructor
  · rintro ⟨-, code, hlast, -⟩
    exact ⟨code, hlast⟩
  · rintro ⟨code, hlast⟩
    obtain ⟨output, hok⟩ := hlast.succeeds
    exact ⟨⟨Digest.ofText code, output⟩, code, hlast, rfl, hok⟩

theorem size_eq_ncard (h : Faithful config calls t) :
    t.size = {path | ∃ code, LastText config calls path code}.ncard := by
  have hpaths : {path | ∃ code, LastText config calls path code} =
      ((t.results.map Prod.fst).toFinset : Set String) := by
    ext path
    rw [Finset.mem_coe, List.mem_toFinset, ← find?_isSome, h.find?_isSome_iff]
    rfl
  rw [hpaths, Set.ncard_coe_finset, List.toFinset_card_of_nodup h.distinct, List.length_map, size]

variable {texts : Set String} (hdigest : Set.InjOn Digest.ofText texts)
  (htexts : ∀ text ∈ calls.flatMap Call.texts, text ∈ texts)
include hdigest htexts

theorem lastText_unique (h : Faithful config calls t) {code' : String}
    (hlast : LastText config calls path code) (hlast' : LastText config calls path code') :
    code = code' := by
  obtain ⟨output, hok⟩ := hlast.succeeds
  obtain ⟨output', hok'⟩ := hlast'.succeeds
  have hfound := (h.found path ⟨Digest.ofText code, output⟩).mpr ⟨code, hlast, rfl, hok⟩
  have hfound' := (h.found path ⟨Digest.ofText code', output'⟩).mpr ⟨code', hlast', rfl, hok'⟩
  have hsame := Option.some.inj (hfound.symm.trans hfound')
  injection hsame with hdigests
  exact hdigest (htexts code hlast.mem_texts) (htexts code' hlast'.mem_texts) hdigests

variable (hcode : code ∈ texts)
include hcode

theorem isCached_iff (h : Faithful config calls t) :
    t.isCached path code = true ↔ LastText config calls path code := by
  rw [isCached, Option.isSome_iff_exists]
  simp only [h.hit?_iff hdigest htexts hcode]
  exact ⟨fun ⟨_, hlast, _⟩ => hlast, fun hlast => hlast.succeeds.imp fun _ hok => ⟨hlast, hok⟩⟩

theorem transform_eq (h : Faithful config calls t) :
    (t.transform code path).1.1 = (Wrap.transform config code path).1 := by
  unfold Transformer.transform
  cases hhit : t.hit? path code with
  | some output => exact ((h.hit?_iff hdigest htexts hcode output).mp hhit).2.symm
  | none =>
    rw [h.configured]
    rcases Wrap.transform config code path with ⟨fault | output, events⟩ <;> rfl

theorem transform (h : Faithful config calls t) :
    Faithful config (calls ++ [Call.transform code path]) (t.transform code path).2 := by
  unfold Transformer.transform
  cases hhit : t.hit? path code with
  | some output =>
    obtain ⟨hlast, hok⟩ := (h.hit?_iff hdigest htexts hcode output).mp hhit
    have hsucceeds : Succeeds config code path := ⟨output, hok⟩
    refine h.unchanged fun p code' => ?_
    by_cases hp : path = p
    · -- the text was the last one of its path before, and it is so again
      subst hp
      rw [lastText_transform hsucceeds]
      constructor
      · rintro rfl
        exact hlast
      · exact fun hbefore => h.lastText_unique hdigest htexts hbefore hlast
    · exact lastText_undisplaced fun hdisplaces => hp hdisplaces.1
  | none =>
    rw [h.configured]
    rcases hrun : Wrap.transform config code path with ⟨fault | output, events⟩
    · have hfails : ¬Succeeds config code path := by
        rintro ⟨output, hok⟩
        simp [hrun] at hok
      exact h.unchanged fun p code' => lastText_undisplaced fun hdisplaces => hfails hdisplaces.2
    · exact h.remember (by rw [hrun])

end Faithful

theorem after_faithful {texts : Set String} (hdigest : Set.InjOn Digest.ofText texts)
    (htexts : ∀ text ∈ calls.flatMap Call.texts, text ∈ texts) :
    Faithful config calls (after config calls) := by
  induction calls using List.reverseRecOn with
  | nil => exact .new
  | append_singleton calls call ih =>
    rw [List.flatMap_append, List.forall_mem_append] at htexts
    obtain ⟨hbefore, hcall⟩ := htexts
    have h := ih hbefore
    rw [after_snoc]
    cases call with
    | transform code path => exact h.transform hdigest hbefore (hcall code (by simp [Call.texts]))
    | isCached path code => exact h.unchanged fun _ _ => lastText_undisplaced id
    | invalidate path => exact h.invalidate path
    | invalidateAll => exact h.invalidateAll

/-- Whatever has been asked of a transformer, a transform answers as it would without memory, and a
text counts as cached exactly when the last transform of its path that succeeded, since the path was
last forgotten, was of this text. A transform that fails changes nothing; forgetting a path says
whether there was such a result; and there are as many results as paths with one. -/
theorem answers_of_calls (config : Config) {texts : Set String}
    (hdigest : Set.InjOn Digest.ofText texts) (calls : List Call)
    (htexts : ∀ text ∈ calls.flatMap Call.texts, text ∈ texts) :
    let t := after config calls
    (∀ code ∈ texts, ∀ path,
      (t.transform code path).1.1 = (Wrap.transform config code path).1 ∧
      ((∃ fault, (t.transform code path).1.1 = .error fault) → (t.transform code path).2 = t) ∧
      (t.isCached path code = true ↔ LastText config calls path code)) ∧
    (∀ path, (t.invalidate path).1 = true ↔ ∃ code, LastText config calls path code) ∧
    t.size = {path | ∃ code, LastText config calls path code}.ncard := by
  intro t
  -- no two texts share a digest, so what is remembered is the result for the last text
  have h : Faithful config calls t := after_faithful hdigest htexts
  refine ⟨fun code hcode path => ⟨?_, ?_, ?_⟩, fun path => h.find?_isSome_iff, h.size_eq_ncard⟩
  · exact h.transform_eq hdigest htexts hcode
  · rintro ⟨fault, hfault⟩
    exact transform_of_error hfault
  · exact h.isCached_iff hdigest htexts hcode

def revisited : List Call :=
  [.transform "1;" "/a", .transform "2;" "/a", .isCached "/a" "1;", .transform "1;" "/b",
    .invalidate "/b"]

theorem answers_of_calls_revisited :
    Set.InjOn Digest.ofText {"1;", "2;"} ∧
    (∀ text ∈ revisited.flatMap Call.texts, text ∈ ({"1;", "2;"} : Set String)) ∧
    (after {} revisited).isCached "/a" "2;" = true ∧
    ((after {} revisited).transform "1;" "/a").1.1 = (Wrap.transform {} "1;" "/a").1 ∧
    (after {} revisited).size = {path | ∃ code, LastText {} revisited path code}.ncard := by
  have hdigest : Set.InjOn Digest.ofText {"1;", "2;"} := by
    have hnodup : (["1;", "2;"].map Digest.ofText).Nodup := by decide +kernel
    intro a ha b hb
    exact List.inj_on_of_nodup_map hnodup (by simpa using ha) (by simpa using hb)
  have htexts : ∀ text ∈ revisited.flatMap Call.texts, text ∈ ({"1;", "2;"} : Set String) := by
    simp [revisited, Call.texts]
  have hlast : LastText {} revisited "/a" "2;" :=
    ⟨[.transform "1;" "/a"], _, rfl, by decide +kernel, by decide +kernel⟩
  obtain ⟨hanswers, -, hsize⟩ := answers_of_calls {} hdigest revisited htexts
  obtain ⟨-, -, hcached⟩ := hanswers "2;" (by simp) "/a"
  obtain ⟨hsame, -, -⟩ := hanswers "1;" (by simp) "/a"
  exact ⟨hdigest, htexts, hcached.mpr hlast, hsame, hsize⟩

end ModuleHost.Wrap.Transformer
