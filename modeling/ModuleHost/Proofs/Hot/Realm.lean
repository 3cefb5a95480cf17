import ModuleHost.Proofs.Hot.Provenance

/-! What belongs to one path: its contexts, some handles on them, some gates and some tasks. A turn
of such a realm is a local action: what it does depends on nothing else, and it changes nothing
else but the log. -/

namespace ModuleHost.Hot

open ModuleHost.Json

structure Realm where
  path : String
  handles : List String
  gates : List String
  opens : List String
  tasks : List Nat

/-! ### Code that keeps to a realm -/

/-- Data are named by a handle of the realm, or else code was given them. -/
def Realm.Names (R : Realm) (given : Bool) : Option String → Prop
  | some name => name ∈ R.handles
  | none => given = true ∨ "" ∈ R.handles

def Effect.Plain (R : Realm) (given : Bool) : Effect Action → Prop
  | .note _ | .showModule => True
  | .acceptSelf handle | .onPrune handle | .invalidate handle _ | .listen handle | .send handle
  | .display handle | .state handle => handle ∈ R.handles
  | .same first second => first ∈ R.handles ∧ second ∈ R.handles
  | .set handle _ _ | .read handle _ | .delete handle _ | .size handle | .displayData handle =>
    R.Names given handle
  | .openGate gate | .closeGate gate => gate ∈ R.opens
  | .create .. | .get .. | .contains _ | .list | .count | .accept .. | .dispose .. => False

mutual

/-- Actions that only use what belongs to a realm. `given` says whether they are those of a callback
that is given data. -/
inductive Action.Confined (R : Realm) : Bool → Action → Prop where
  | effect {given : Bool} {e : Effect Action} (h : Effect.Confined R given e) :
      Action.Confined R given (.effect e)
  | wait {given : Bool} {gate : String} (h : gate ∈ R.gates) :
      Action.Confined R given (.wait gate)
  | yield {given : Bool} : Action.Confined R given .yield
  | fail {given : Bool} (reason : String) : Action.Confined R given (.fail reason)
  | panic {given : Bool} (payload : Option Value) : Action.Confined R given (.panic payload)
  | ifModule {given : Bool} (value : Value) {steps : List Action}
      (h : ∀ a ∈ steps, Action.Confined R given a) :
      Action.Confined R given (.ifModule value steps)
  | apply {given : Bool} (module : Option Value) : Action.Confined R given (.apply R.path module)
  | prune {given : Bool} : Action.Confined R given (.prune R.path)

inductive Effect.Confined (R : Realm) : Bool → Effect Action → Prop where
  | plain {given : Bool} {e : Effect Action} (h : e.Plain R given) : Effect.Confined R given e
  | accept {given : Bool} {handle : String} {c : Callback Action} (own : handle ∈ R.handles)
      (h : ∀ a ∈ c.actions, Action.Confined R false a) :
      Effect.Confined R given (.accept handle c)
  | dispose {given : Bool} {handle : String} {c : Callback Action} (own : handle ∈ R.handles)
      (h : ∀ a ∈ c.actions, Action.Confined R true a) :
      Effect.Confined R given (.dispose handle c)

end

def Callback.Confined (R : Realm) (phase : Phase) (c : Callback Action) : Prop :=
  ∀ a ∈ c.actions, Action.Confined R (phase == .dispose) a

def Realm.Owns (R : Realm) (r : Contexts) (id : Nat) : Prop :=
  (r.context? id).map Context.path = some R.path

instance (R : Realm) (r : Contexts) (id : Nat) : Decidable (R.Owns r id) :=
  inferInstanceAs (Decidable (_ = _))

inductive Frame.Confined (R : Realm) (r : Contexts) : Frame → Prop where
  | script (scope : Scope) {rest : List Action} (data : ∀ id ∈ scope.data, R.Owns r id)
      (h : ∀ a ∈ rest, Action.Confined R scope.data.isSome a) :
      Frame.Confined R r (.script scope rest)
  | request (job : Job Value) : Frame.Confined R r (.request R.path job)
  | sequence (answer : Returned) {s : Running} (own : R.Owns r s.context) :
      Frame.Confined R r (.sequence answer s)

/-- What belongs to a realm keeps to it. -/
structure Realm.Within (R : Realm) (w : World) : Prop where
  handles : ∀ name ∈ R.handles, ∀ id ∈ w.handle? name, R.Owns w.registry id
  callbacks : ∀ id phase callback, R.Owns w.registry id → Kept w.scene id phase callback →
    callback.Confined R phase
  tasks : ∀ t ∈ R.tasks, ∀ frame ∈ (w.tasks[t]?).getD [], frame.Confined R w.registry

/-- Turns of a realm: steps of its tasks, and effects from outside. -/
def Realm.Runs (R : Realm) : Turn → Prop
  | .step t => t ∈ R.tasks
  | .operate (.effect e) => Effect.Confined R false e
  | .operate _ => False

/-! ### Agreement on a realm -/

structure Realm.Matches (R : Realm) (r s : Contexts) : Prop where
  contexts : ∀ id, R.Owns r id ∨ R.Owns s id → s.context? id = r.context? id
  entries : s.registered.filter (·.1 = R.path) = r.registered.filter (·.1 = R.path)

/-- Two worlds are the same as far as one realm goes. -/
structure Realm.Agrees (R : Realm) (u v : World) : Prop where
  registry : R.Matches u.registry v.registry
  handles : v.handles = u.handles
  gates : ∀ gate ∈ R.gates, v.openGates.contains gate = u.openGates.contains gate
  tasks : ∀ t ∈ R.tasks, v.tasks[t]? = u.tasks[t]?

namespace Realm

variable {R : Realm} {r s q : Contexts} {u v w : World}

theorem Matches.refl : R.Matches r r := ⟨fun _ _ => rfl, rfl⟩

theorem Matches.owns (h : R.Matches r s) {id : Nat} : R.Owns s id ↔ R.Owns r id := by
  refine ⟨fun hs => ?_, fun hr => ?_⟩
  · unfold Owns
    rw [← h.contexts id (.inr hs)]
    exact hs
  · unfold Owns
    rw [h.contexts id (.inl hr)]
    exact hr

theorem Matches.trans (h : R.Matches r s) (h' : R.Matches s q) : R.Matches r q where
  contexts := by
    intro id hid
    have hs : R.Owns s id := hid.elim h.owns.mpr h'.owns.mp
    rw [h'.contexts id (.inl hs), h.contexts id (.inr hs)]
  entries := h'.entries.trans h.entries

theorem Matches.find? (h : R.Matches r s) : s.find? R.path = r.find? R.path := by
  unfold Registry.find?
  rw [← List.head?_filter, ← List.head?_filter, h.entries]

theorem Agrees.refl : R.Agrees w w := ⟨.refl, rfl, fun _ _ => rfl, fun _ _ => rfl⟩

theorem Agrees.trans (h : R.Agrees u v) (h' : R.Agrees v w) : R.Agrees u w where
  registry := h.registry.trans h'.registry
  handles := h'.handles.trans h.handles
  gates := fun gate hgate => (h'.gates gate hgate).trans (h.gates gate hgate)
  tasks := fun t ht => (h'.tasks t ht).trans (h.tasks t ht)

theorem Agrees.handle? (h : R.Agrees u v) (name : String) : v.handle? name = u.handle? name := by
  simp [World.handle?, h.handles]

end Realm

/-! ### Local actions -/

/-- Something that is done to one context. -/
inductive Touch where
  | change (id : Nat) (f : Context (Callback Action) Value → Context (Callback Action) Value)
  | forget (id : Nat)

def Touch.apply (path : String) (r : Contexts) : Touch → Contexts
  | .change id f => r.modify id f
  | .forget id => r.unregister path id

def Touch.Fits (R : Realm) (r : Contexts) : Touch → Prop
  | .change id f => R.Owns r id ∧ ∀ c, (f c).path = c.path
  | .forget _ => True

/-- What a turn does apart from the log. -/
structure Deed where
  touches : List Touch := []
  gate : Option (String × Bool) := none
  frames : Option (Nat × List Frame) := none

def Deed.gates (d : Deed) (gates : List String) : List String :=
  match d.gate with
  | none => gates
  | some (gate, true) => gate :: gates
  | some (gate, false) => gates.filter (· ≠ gate)

def Deed.tasks (d : Deed) (tasks : List (List Frame)) : List (List Frame) :=
  match d.frames with
  | none => tasks
  | some (t, frames) => tasks.set t frames

def Deed.apply (d : Deed) (path : String) (w : World) : World :=
  { w with
    registry := d.touches.foldl (Touch.apply path) w.registry
    openGates := d.gates w.openGates
    tasks := d.tasks w.tasks }

structure Deed.Fits (R : Realm) (r : Contexts) (d : Deed) : Prop where
  touches : ∀ touch ∈ d.touches, touch.Fits R r
  gate : ∀ gate opened, d.gate = some (gate, opened) → gate ∈ R.opens
  frames : ∀ t frames, d.frames = some (t, frames) →
    t ∈ R.tasks ∧ ∀ frame ∈ frames, frame.Confined R r

section

variable {P R : Realm} {r s : Contexts} {v w : World} {touch : Touch} {d : Deed}

theorem Touch.Fits.owns (h : touch.Fits R r) (P : Realm) (path : String) (id : Nat) :
    P.Owns (touch.apply path r) id ↔ P.Owns r id := by
  cases touch with
  | change j f =>
    unfold Realm.Owns
    rw [Touch.apply, Registry.map_context?_modify r j id h.2]
  | forget j => exact Iff.rfl

theorem Touch.Fits.of_matches (h : touch.Fits R r) (hrs : R.Matches r s) : touch.Fits R s := by
  cases touch with
  | change j f => exact ⟨hrs.owns.mpr h.1, h.2⟩
  | forget j => trivial

theorem Touch.Fits.matches (h : touch.Fits R r) (hrs : R.Matches r s) :
    R.Matches (touch.apply R.path r) (touch.apply R.path s) := by
  refine ⟨fun id hid => ?_, ?_⟩
  · rw [h.owns, (h.of_matches hrs).owns] at hid
    have hsame := hrs.contexts id hid
    cases touch with
    | change j f => simp [Touch.apply, hsame]
    | forget j => exact hsame
  · cases touch with
    | change j f => exact hrs.entries
    | forget j =>
      simp only [Touch.apply, Registry.unregister]
      rw [List.filter_filter, List.filter_filter]
      simp only [Bool.and_comm (decide (_ = R.path))]
      rw [← List.filter_filter, ← List.filter_filter, hrs.entries]

theorem Touch.Fits.foreign (h : touch.Fits R r) (hne : P.path ≠ R.path) :
    P.Matches r (touch.apply R.path r) := by
  refine ⟨fun id hid => ?_, ?_⟩
  · rw [h.owns, or_self] at hid
    cases touch with
    | change j f =>
      refine Registry.context?_modify_ne r ?_ f
      rintro rfl
      exact hne (Option.some.inj (hid.symm.trans h.1))
    | forget j => rfl
  · cases touch with
    | change j f => rfl
    | forget j =>
      simp only [Touch.apply, Registry.unregister, List.filter_filter]
      refine List.filter_congr fun e _ => ?_
      by_cases he : e.1 = P.path
      · simp [he, hne]
      · simp [he]

theorem Touch.Fits.after {other : Touch} (h : touch.Fits R r) (ho : other.Fits R r) :
    other.Fits R (touch.apply R.path r) := by
  cases other with
  | change j f => exact ⟨(h.owns R R.path j).mpr ho.1, ho.2⟩
  | forget j => trivial

theorem touches_owns {touches : List Touch} (h : ∀ touch ∈ touches, touch.Fits R r) (P : Realm)
    (id : Nat) : P.Owns (touches.foldl (Touch.apply R.path) r) id ↔ P.Owns r id := by
  induction touches generalizing r with
  | nil => exact Iff.rfl
  | cons touch touches ih =>
    have hfirst := h touch List.mem_cons_self
    rw [List.foldl_cons, ih fun other ho => hfirst.after (h other (List.mem_cons_of_mem _ ho)),
      hfirst.owns]

theorem touches_matches {touches : List Touch} (h : ∀ touch ∈ touches, touch.Fits R r)
    (hrs : R.Matches r s) : R.Matches (touches.foldl (Touch.apply R.path) r)
      (touches.foldl (Touch.apply R.path) s) := by
  induction touches generalizing r s with
  | nil => exact hrs
  | cons touch touches ih =>
    have hfirst := h touch List.mem_cons_self
    exact ih (fun other ho => hfirst.after (h other (List.mem_cons_of_mem _ ho)))
      (hfirst.matches hrs)

theorem touches_foreign {touches : List Touch} (h : ∀ touch ∈ touches, touch.Fits R r)
    (hne : P.path ≠ R.path) : P.Matches r (touches.foldl (Touch.apply R.path) r) := by
  induction touches generalizing r with
  | nil => exact .refl
  | cons touch touches ih =>
    have hfirst := h touch List.mem_cons_self
    exact (hfirst.foreign hne).trans
      (ih fun other ho => hfirst.after (h other (List.mem_cons_of_mem _ ho)))

theorem Deed.gates_contains (d : Deed) (gates : List String) (g : String) :
    (d.gates gates).contains g =
      match d.gate with
      | some (gate, opened) => if g = gate then opened else gates.contains g
      | none => gates.contains g := by
  rcases d with ⟨touches, _ | ⟨gate, _ | _⟩, frames⟩
  · rfl
  · by_cases hg : g = gate
    · simp [Deed.gates, hg]
    · simp [Deed.gates, hg]
  · by_cases hg : g = gate
    · simp [Deed.gates, hg]
    · simp [Deed.gates, hg]

/-- A deed does the same wherever its realm is the same. -/
theorem Deed.agrees (hd : d.Fits R w.registry) (h : R.Agrees w v) :
    R.Agrees (d.apply R.path w) (d.apply R.path v) where
  registry := touches_matches hd.touches h.registry
  handles := h.handles
  gates := by
    intro gate hgate
    simp only [Deed.apply, Deed.gates_contains, h.gates gate hgate]
  tasks := by
    intro t ht
    simp only [Deed.apply, Deed.tasks]
    split
    · exact h.tasks t ht
    · rename_i t' frames hframes
      by_cases htt : t' = t
      · subst htt
        rw [List.getElem?_set_self', List.getElem?_set_self', h.tasks t' ht]
      · rw [List.getElem?_set_ne htt, List.getElem?_set_ne htt, h.tasks t ht]

/-- Realms of different paths that have nothing to do with each other. -/
structure Realm.Apart (P R : Realm) : Prop where
  path : P.path ≠ R.path
  gates : ∀ gate ∈ P.gates, gate ∉ R.opens
  opens : ∀ gate ∈ P.opens, gate ∉ R.gates
  tasks : ∀ t ∈ P.tasks, t ∉ R.tasks

/-- A deed leaves all other realms as they are. -/
theorem Deed.foreign (hd : d.Fits R w.registry) (hapart : P.Apart R) :
    P.Agrees w (d.apply R.path w) where
  registry := touches_foreign hd.touches hapart.path
  handles := rfl
  gates := by
    intro gate hgate
    simp only [Deed.apply, Deed.gates_contains]
    split
    · rename_i own opened hgates
      refine if_neg ?_
      rintro rfl
      exact hapart.gates gate hgate (hd.gate gate opened hgates)
    · rfl
  tasks := by
    intro t ht
    simp only [Deed.apply, Deed.tasks]
    split
    · rfl
    · rename_i t' frames hframes
      refine List.getElem?_set_ne ?_
      rintro rfl
      exact hapart.tasks t' ht (hd.frames t' frames hframes).1

end

/-! ### Turns of a realm are deeds -/

namespace World

def unlogged (w : World) : World := { w with log := [] }

@[simp] theorem unlogged_recordAnswer (w : World) (action : String) (answer : Answer) :
    (w.recordAnswer action answer).unlogged = w.unlogged := by
  cases answer <;> rfl

@[simp] theorem unlogged_reportFailure (w : World) (s : Running) (failure : Option Failure) :
    (w.reportFailure s failure).unlogged = w.unlogged := by
  cases failure <;> rfl

@[simp] theorem unlogged_setFrames (w : World) (t : Nat) (frames : List Frame) :
    (w.setFrames t frames).unlogged = w.unlogged.setFrames t frames := rfl

end World

/-- What a function does to worlds that agree on a realm is one deed of the realm. -/
def Realm.Does (R : Realm) (w : World) (frames : Option (Nat × List Frame)) (f : World → World) :
    Prop :=
  ∃ d : Deed, d.Fits R w.registry ∧ d.frames = frames ∧
    ∀ v, R.Agrees w v → (f v).unlogged = (d.apply R.path v).unlogged

namespace Realm

variable {R : Realm} {w : World}

theorem does_nothing {f : World → World} (h : ∀ v, R.Agrees w v → (f v).unlogged = v.unlogged) :
    R.Does w none f :=
  ⟨{}, ⟨by simp, by simp, by simp⟩, rfl, h⟩

theorem does_id : R.Does w none fun v => v := does_nothing fun _ _ => rfl

theorem does_forget (id : Nat) :
    R.Does w none fun v => { v with registry := v.registry.unregister R.path id } :=
  ⟨{ touches := [.forget id] }, ⟨by simp [Touch.Fits], by simp, by simp⟩, rfl, fun _ _ => rfl⟩

theorem Does.congr {frames : Option (Nat × List Frame)} {f g : World → World}
    (hf : R.Does w frames f) (hg : ∀ v, R.Agrees w v → g v = f v) : R.Does w frames g := by
  obtain ⟨d, hd, hframes, hdoes⟩ := hf
  exact ⟨d, hd, hframes, fun v hv => by rw [hg v hv, hdoes v hv]⟩

theorem Does.touch {f : World → World} (hf : R.Does w none f) (id : Nat)
    (change : Context (Callback Action) Value → Context (Callback Action) Value)
    (hown : R.Owns w.registry id) (hpath : ∀ c, (change c).path = c.path) :
    R.Does w none fun v => { f v with registry := (f v).registry.modify id change } := by
  obtain ⟨d, hd, hnone, hdoes⟩ := hf
  refine ⟨{ d with touches := d.touches ++ [.change id change] }, ⟨?_, hd.gate, hd.frames⟩,
    hnone, fun v hv => ?_⟩
  · exact List.forall_mem_append.mpr
      ⟨hd.touches, List.forall_mem_singleton.mpr ⟨hown, hpath⟩⟩
  · have h := hdoes v hv
    simp only [World.unlogged, Deed.apply, World.mk.injEq] at h ⊢
    simp [h, Deed.gates, Deed.tasks, Touch.apply]

theorem Does.setFrames {f g : World → World} {t : Nat} {frames : List Frame}
    (hf : R.Does w none f) (ht : t ∈ R.tasks)
    (hframes : ∀ frame ∈ frames, frame.Confined R w.registry)
    (hg : ∀ v, R.Agrees w v → (g v).unlogged = (f v).unlogged.setFrames t frames) :
    R.Does w (some (t, frames)) g := by
  obtain ⟨d, hd, hnone, hdoes⟩ := hf
  refine ⟨{ d with frames := some (t, frames) }, ⟨hd.touches, hd.gate, ?_⟩, rfl, fun v hv => ?_⟩
  · intro t' frames' heq
    obtain ⟨rfl, rfl⟩ := Prod.mk.inj (Option.some.inj heq)
    exact ⟨ht, hframes⟩
  · rw [hg v hv, hdoes v hv]
    simp [Deed.apply, Deed.tasks, hnone, World.unlogged, World.setFrames, Deed.gates]

section

variable (hw : R.Within w)

include hw

theorem withHandle_does {name : String} {act : World → Nat → World × Answer}
    (hname : name ∈ R.handles) (hact : ∀ id, R.Owns w.registry id →
      R.Does w none fun v => (act v id).1) :
    R.Does w none fun v => (v.withHandle name (act v)).1 := by
  cases hid : w.handle? name with
  | none =>
    refine does_nothing fun v hv => ?_
    simp only [World.withHandle, hv.handle?, hid]
  | some id =>
    obtain ⟨d, hd, hframes, hdoes⟩ := hact id (hw.handles name hname id hid)
    refine ⟨d, hd, hframes, fun v hv => ?_⟩
    simp only [World.withHandle, hv.handle?, hid]
    exact hdoes v hv

theorem withData_does {scope : Scope} {handle : Option String}
    {act : World → Nat → Data → World × Answer} (hdata : ∀ id ∈ scope.data, R.Owns w.registry id)
    (hnames : R.Names scope.data.isSome handle) (hact : ∀ id, R.Owns w.registry id →
      ∀ data : World → Data, R.Does w none fun v => (act v id (data v)).1) :
    R.Does w none fun v => (v.withData scope handle (act v)).1 := by
  have hdoes : ∀ id, R.Owns w.registry id → R.Does w none fun v =>
      (act v id (((v.registry.context? id).map Context.data).getD {})).1 :=
    fun id hid => hact id hid _
  have hnamed : ∀ name ∈ R.handles, R.Does w none fun v => (v.withHandle name fun id =>
      act v id (((v.registry.context? id).map Context.data).getD {})).1 :=
    fun name hname => withHandle_does hw hname hdoes
  unfold World.withData
  cases handle with
  | some name => exact hnamed name hnames
  | none =>
    cases hscope : scope.data with
    | some id => exact hdoes id (hdata id hscope)
    | none =>
      rw [hscope] at hnames
      exact hnamed "" (hnames.resolve_left (by simp))

theorem perform_does (scope : Scope) {e : Effect Action}
    (hdata : ∀ id ∈ scope.data, R.Owns w.registry id)
    (he : Effect.Confined R scope.data.isSome e) :
    R.Does w none fun v => (v.perform scope e).1 := by
  have changed : ∀ (f : Context (Callback Action) Value → Context (Callback Action) Value),
      (∀ c, (f c).path = c.path) → ∀ id, R.Owns w.registry id → R.Does w none fun v =>
        { v with registry := v.registry.modify id f } := fun f hf id hid =>
    does_id.touch id f hid hf
  have unchanged : ∀ {act : World → World}, (∀ v, (act v).unlogged = v.unlogged) →
      R.Does w none act := fun h => does_nothing fun v _ => h v
  cases he with
  | accept own h =>
    exact withHandle_does hw own fun id hid => changed _ (fun _ => by rfl) id hid
  | dispose own h =>
    exact withHandle_does hw own fun id hid => changed _ (fun _ => by rfl) id hid
  | plain h =>
    cases e with
    | note text => exact unchanged fun _ => rfl
    | showModule => exact unchanged fun _ => rfl
    | acceptSelf handle =>
      exact withHandle_does hw h fun id hid => changed _ (fun _ => by rfl) id hid
    | onPrune handle => exact withHandle_does hw h fun id hid => unchanged fun _ => rfl
    | invalidate handle message => exact withHandle_does hw h fun id hid => unchanged fun _ => rfl
    | listen handle => exact withHandle_does hw h fun id hid => unchanged fun _ => rfl
    | send handle => exact withHandle_does hw h fun id hid => unchanged fun _ => rfl
    | display handle => exact withHandle_does hw h fun id hid => unchanged fun _ => rfl
    | state handle => exact withHandle_does hw h fun id hid => unchanged fun _ => rfl
    | same first second =>
      exact withHandle_does hw h.1 fun _ _ => withHandle_does hw h.2 fun _ _ =>
        unchanged fun _ => rfl
    | set handle key value =>
      exact withData_does hw hdata h fun id hid _ => changed _ (fun _ => by rfl) id hid
    | delete handle key =>
      exact withData_does hw hdata h fun id hid _ => changed _ (fun _ => by rfl) id hid
    | read handle key => exact withData_does hw hdata h fun _ _ _ => unchanged fun _ => rfl
    | size handle => exact withData_does hw hdata h fun _ _ _ => unchanged fun _ => rfl
    | displayData handle => exact withData_does hw hdata h fun _ _ _ => unchanged fun _ => rfl
    | openGate gate =>
      exact ⟨{ gate := some (gate, true) }, ⟨by simp, by simp; exact h, by simp⟩, rfl,
        fun _ _ => rfl⟩
    | closeGate gate =>
      exact ⟨{ gate := some (gate, false) }, ⟨by simp, by simp; exact h, by simp⟩, rfl,
        fun _ _ => rfl⟩
    | create path handle => cases h
    | get path handle => cases h
    | contains path => cases h
    | list => cases h
    | count => cases h
    | accept handle callback => cases h
    | dispose handle callback => cases h

end

theorem unlogged_leave {r : Contexts} {below : List Frame} (v : World) (t : Nat)
    (returned : Returned) (h : ∀ frame ∈ below, frame.Confined R r) :
    (v.leave t below returned).unlogged = v.unlogged.setFrames t below := by
  cases below with
  | nil => rfl
  | cons frame rest =>
    have hframe := h frame List.mem_cons_self
    cases hframe with
    | script scope data hscript => simp [World.leave]
    | request job => rfl
    | sequence answer own => cases returned <;> simp [World.leave]

theorem leave_does {t : Nat} {below : List Frame} (returned : Returned) (ht : t ∈ R.tasks)
    (h : ∀ frame ∈ below, frame.Confined R w.registry) {f : World → World}
    (hf : R.Does w none f) : R.Does w (some (t, below)) fun v => (f v).leave t below returned :=
  hf.setFrames ht h fun v _ => unlogged_leave (f v) t returned h

theorem act_does (hw : R.Within w) {t : Nat} {scope : Scope} {action : Action}
    {rest : List Action} {below : List Frame} (ht : t ∈ R.tasks)
    (hframes : ∀ frame ∈ .script scope (action :: rest) :: below, frame.Confined R w.registry) :
    ∃ frames, R.Does w frames fun v => (v.act t scope action rest below).1 := by
  obtain ⟨hscript, hbelow⟩ := List.forall_mem_cons.mp hframes
  cases hscript with
  | script _ hdata hactions =>
  obtain ⟨haction, hrest⟩ := List.forall_mem_cons.mp hactions
  have hnext : ∀ frame ∈ .script scope rest :: below, frame.Confined R w.registry :=
    List.forall_mem_cons.mpr ⟨.script scope hdata hrest, hbelow⟩
  have goesOn : ∀ {frames : List Frame}, (∀ frame ∈ frames, frame.Confined R w.registry) →
      R.Does w (some (t, frames)) fun v => v.setFrames t frames := fun h =>
    does_id.setFrames ht h fun _ _ => rfl
  cases haction with
  | effect he =>
    refine ⟨_, (perform_does hw scope hdata he).setFrames ht hnext fun v _ => ?_⟩
    simp [World.act]
  | @wait _ gate hgate =>
    by_cases hopen : w.openGates.contains gate = true
    · refine ⟨_, does_id.setFrames ht hnext fun v hv => ?_⟩
      simp only [World.act, hv.gates gate hgate, hopen, if_true]
      rfl
    · refine ⟨_, does_nothing fun v hv => ?_⟩
      simp only [World.act, hv.gates gate hgate, hopen]
      rfl
  | yield => exact ⟨_, goesOn hnext⟩
  | fail reason => exact ⟨_, leave_does _ ht hbelow does_id⟩
  | panic payload => exact ⟨_, leave_does _ ht hbelow does_id⟩
  | ifModule value hsteps =>
    refine ⟨_, goesOn (List.forall_mem_cons.mpr ⟨.script scope hdata ?_, hbelow⟩)⟩
    refine List.forall_mem_append.mpr ⟨fun a ha => ?_, hrest⟩
    split at ha
    · exact hsteps a ha
    · cases ha
  | apply module => exact ⟨_, goesOn (List.forall_mem_cons.mpr ⟨.request _, hnext⟩)⟩
  | prune => exact ⟨_, goesOn (List.forall_mem_cons.mpr ⟨.request _, hnext⟩)⟩

theorem Agrees.context? {v : World} (h : R.Agrees w v) {id : Nat} (hid : R.Owns w.registry id) :
    v.registry.context? id = w.registry.context? id := h.registry.contexts id (.inl hid)

theorem Agrees.path {v : World} (h : R.Agrees w v) {s : Running}
    (hown : R.Owns w.registry s.context) : s.path v.registry = R.path := by
  rw [Sequence.path, h.context? hown, show _ = some R.path from hown, Option.getD_some]

theorem owns_found (hs : Sound w.scene) {id : Nat} (h : w.registry.find? R.path = some id) :
    R.Owns w.registry id := by
  obtain ⟨c, hc, hpath⟩ := hs.registered h
  rw [Owns, show w.registry.context? id = some c from hc, Option.map_some, hpath]

theorem request_does (hs : Sound w.scene) {t : Nat} (job : Job Value) {below : List Frame}
    (ht : t ∈ R.tasks) (hbelow : ∀ frame ∈ below, frame.Confined R w.registry) :
    ∃ frames, R.Does w frames fun v => v.request t R.path job below := by
  cases hfind : w.registry.find? R.path with
  | none =>
    refine ⟨_, does_id.setFrames ht hbelow fun v hv => ?_⟩
    simp only [World.request, hv.registry.find?, hfind]
    cases job <;> exact unlogged_leave _ t _ hbelow
  | some id =>
    have hown : R.Owns w.registry id := owns_found hs hfind
    obtain ⟨c, hc, -⟩ := hs.registered hfind
    have hctx : ∀ v, R.Agrees w v → v.registry.context? id = some c :=
      fun v hv => (hv.context? hown).trans hc
    by_cases hbusy : c.busy = true
    · have hqueue := does_id.touch id (fun c => { c with queue := c.queue ++ [job] }) hown
        fun _ => rfl
      refine ⟨_, hqueue.setFrames ht hbelow fun v hv => ?_⟩
      simp only [World.request, hv.registry.find?, hfind, Sequence.request, hctx v hv, hbusy,
        if_true]
      exact unlogged_leave _ t _ hbelow
    · have hheld := does_id.touch id (fun c => { c with busy := true }) hown fun _ => rfl
      have hframes : ∀ frame ∈ .sequence (.ofJob job) ⟨id, .starting job⟩ :: below,
          frame.Confined R w.registry := List.forall_mem_cons.mpr ⟨.sequence _ hown, hbelow⟩
      refine ⟨_, hheld.setFrames ht hframes fun v hv => ?_⟩
      simp only [World.request, hv.registry.find?, hfind, Sequence.request, hctx v hv, hbusy]
      rfl

theorem taken_confined (hw : R.Within w) {t : Nat} {answer : Returned} {s : Running}
    {below : List Frame} (htask : w.tasks[t]? = some (.sequence answer s :: below))
    (hown : R.Owns w.registry s.context) {phase : Phase} {callback : Callback Action}
    (hmem : callback ∈ s.callbacks phase) : callback.Confined R phase := by
  have hflight : ⟨false, s⟩ ∈ w.flights := by
    apply World.mem_flights (t := t)
    simp [htask, flightsIn]
  exact hw.callbacks s.context phase callback hown (.inr ⟨_, hflight, rfl, hmem⟩)

theorem putBack_does {s : Running} (hown : R.Owns w.registry s.context) (generation : Nat)
    (taken : List (Callback Action)) : R.Does w none fun v =>
      { v with registry := s.putBack v.registry R.path generation taken } := by
  by_cases hfind : w.registry.find? R.path = some s.context
  · have hback := does_id.touch s.context (fun c =>
      if c.generation = generation then { c with accepts := taken ++ c.accepts } else c) hown
      fun c => by split <;> rfl
    refine hback.congr fun v hv => ?_
    simp only [Sequence.putBack, hv.registry.find?, hfind, if_true]
  · refine does_id.congr fun v hv => ?_
    simp only [Sequence.putBack, hv.registry.find?, hfind, if_false]

theorem proceed_again {r : Contexts} {s : Running} {job : Job Value} {rest : List (Job Value)}
    (h : (r.context? s.context).map Context.queue = some (job :: rest)) :
    s.proceed r = (.again ⟨s.context, .starting job⟩,
      r.modify s.context fun c => { c with queue := rest }) := by
  simp [Sequence.proceed, h]

theorem proceed_ended {r : Contexts} {s : Running}
    (h : ∀ job rest, (r.context? s.context).map Context.queue ≠ some (job :: rest)) :
    s.proceed r = (.ended, s.release r) := by
  unfold Sequence.proceed
  split
  · exact absurd ‹_› (h _ _)
  · rfl

section

variable {t : Nat} {answer : Returned} {s : Running} {below : List Frame}
  {registry : World → Contexts} (ht : t ∈ R.tasks) (hown : R.Owns w.registry s.context)
  (hbelow : ∀ frame ∈ below, frame.Confined R w.registry)

include ht hown hbelow

theorem again_does (stage : Stage (Callback Action) Value)
    (hdoes : R.Does w none fun v => { v with registry := registry v })
    (hstep : ∀ v, R.Agrees w v → ∃ events,
      s.step v.registry = (.again ⟨s.context, stage⟩, registry v, events)) :
    ∃ frames, R.Does w frames fun v => v.advanceSequence t answer s below := by
  have hframes : ∀ frame ∈ .sequence answer ⟨s.context, stage⟩ :: below,
      frame.Confined R w.registry := List.forall_mem_cons.mpr ⟨.sequence answer hown, hbelow⟩
  refine ⟨_, hdoes.setFrames ht hframes fun v hv => ?_⟩
  obtain ⟨events, hnext⟩ := hstep v hv
  simp only [World.advanceSequence, hnext]
  rfl

theorem call_does {phase : Phase} {callback : Callback Action} (module : Option Value)
    (stage : Stage (Callback Action) Value) (hcallback : callback.Confined R phase)
    (hstep : ∀ r : Contexts, s.step r = (.call phase callback module ⟨s.context, stage⟩, r, [])) :
    ∃ frames, R.Does w frames fun v => v.advanceSequence t answer s below := by
  have hnext : ∀ frame ∈ .sequence answer ⟨s.context, stage⟩ :: below,
      frame.Confined R w.registry := List.forall_mem_cons.mpr ⟨.sequence answer hown, hbelow⟩
  have hframes : ∀ scope : Scope, (∀ id ∈ scope.data, R.Owns w.registry id) →
      scope.data.isSome = (phase == .dispose) →
      ∀ frame ∈ .script scope callback.actions :: .sequence answer ⟨s.context, stage⟩ :: below,
        frame.Confined R w.registry := by
    intro scope hdata hgiven
    refine List.forall_mem_cons.mpr ⟨.script scope hdata ?_, hnext⟩
    rw [hgiven]
    exact hcallback
  cases phase with
  | dispose =>
    refine ⟨_, does_id.setFrames ht (hframes { data := some s.context } ?_ rfl) fun v _ => ?_⟩
    · rintro _ ⟨⟩
      exact hown
    · simp only [World.advanceSequence, hstep]
      rfl
  | accept =>
    refine ⟨_, does_id.setFrames ht (hframes { module } ?_ rfl) fun v _ => ?_⟩
    · rintro _ ⟨⟩
    · simp only [World.advanceSequence, hstep]
      rfl

omit hown in
theorem ended_does (hdoes : R.Does w none fun v => { v with registry := registry v })
    (hstep : ∀ v, R.Agrees w v → ∃ events, s.step v.registry = (.ended, registry v, events)) :
    ∃ frames, R.Does w frames fun v => v.advanceSequence t answer s below := by
  refine ⟨_, hdoes.setFrames ht hbelow fun v hv => ?_⟩
  obtain ⟨events, hnext⟩ := hstep v hv
  simp only [World.advanceSequence, hnext]
  exact unlogged_leave _ t _ hbelow

theorem accepted_does {module : Option Value} {generation : Nat} {taken : List (Callback Action)}
    (hstage : s.stage = .accepting module generation taken []) :
    ∃ frames, R.Does w frames fun v => v.advanceSequence t answer s below := by
  have hstep : ∀ v, R.Agrees w v → s.step v.registry =
      ((s.proceed (s.putBack v.registry R.path generation taken)).1,
        (s.proceed (s.putBack v.registry R.path generation taken)).2,
        [⟨.debug, "hot update applied", [("path", .text R.path)]⟩]) := fun v hv => by
    simp only [Sequence.step, hstage, hv.path hown]
  have hqueue : ∀ v, R.Agrees w v →
      ((s.putBack v.registry R.path generation taken).context? s.context).map Context.queue =
        (w.registry.context? s.context).map Context.queue := fun v hv => by
    rw [putBack_queue, hv.context? hown]
  have hback := putBack_does hown generation taken
  by_cases hwaiting : ∃ job rest,
      (w.registry.context? s.context).map Context.queue = some (job :: rest)
  · obtain ⟨job, rest, hq⟩ := hwaiting
    have hnext := hback.touch s.context (fun c => { c with queue := rest }) hown fun _ => rfl
    refine again_does ht hown hbelow (.starting job) hnext fun v hv => ?_
    rw [hstep v hv, proceed_again ((hqueue v hv).trans hq)]
    exact ⟨_, rfl⟩
  · have hfreed := hback.touch s.context (fun c => { c with busy := false }) hown fun _ => rfl
    refine ended_does ht hbelow hfreed fun v hv => ?_
    rw [hstep v hv, proceed_ended fun job rest hq =>
      hwaiting ⟨job, rest, (hqueue v hv).symm.trans hq⟩]
    exact ⟨_, rfl⟩

theorem pruned_does (hstage : s.stage = .disposing .prune []) :
    ∃ frames, R.Does w frames fun v => v.advanceSequence t answer s below := by
  have hemptied := (does_forget s.context).touch s.context (fun c => { c with queue := [] }) hown
    fun _ => rfl
  have hfreed := hemptied.touch s.context (fun c => { c with busy := false }) hown fun _ => rfl
  refine ended_does ht hbelow hfreed fun v hv => ?_
  simp only [Sequence.step, hstage, hv.path hown]
  exact ⟨_, rfl⟩

end

theorem sequence_does (hw : R.Within w) {t : Nat} {answer : Returned} {s : Running}
    {below : List Frame} (ht : t ∈ R.tasks)
    (htask : w.tasks[t]? = some (.sequence answer s :: below))
    (hframes : ∀ frame ∈ .sequence answer s :: below, frame.Confined R w.registry) :
    ∃ frames, R.Does w frames fun v => v.advanceSequence t answer s below := by
  obtain ⟨hsequence, hbelow⟩ := List.forall_mem_cons.mp hframes
  cases hsequence with
  | sequence _ hown =>
  -- what the sequence has taken from its context is as confined as what stands there
  have htaken : ∀ phase callback, callback ∈ s.callbacks phase → callback.Confined R phase :=
    fun _ _ => taken_confined hw htask hown
  cases hstage : s.stage with
  | starting job =>
    have hdoes := does_id.touch s.context (fun c => { c with disposes := [] }) hown fun _ => rfl
    refine again_does ht hown hbelow
      (.disposing job (((w.registry.context? s.context).map Context.disposes).getD [])) hdoes ?_
    intro v hv
    simp only [Sequence.step, hstage, hv.context? hown]
    exact ⟨_, rfl⟩
  | disposing job left =>
    cases left with
    | cons callback left =>
      have hcallback := htaken .dispose callback (by simp [Sequence.callbacks, hstage])
      exact call_does ht hown hbelow none (.disposing job left) hcallback fun r => by
        simp only [Sequence.step, hstage]
    | nil =>
      cases job with
      | prune => exact pruned_does ht hown hbelow hstage
      | update module =>
        have hdoes := does_id.touch s.context (fun c => { c with accepts := [] }) hown fun _ => rfl
        refine again_does ht hown hbelow (.accepting module
          (((w.registry.context? s.context).map Context.generation).getD 0)
          (((w.registry.context? s.context).map Context.accepts).getD [])
          (((w.registry.context? s.context).map Context.accepts).getD [])) hdoes ?_
        intro v hv
        simp only [Sequence.step, hstage, hv.context? hown]
        exact ⟨_, rfl⟩
  | accepting module generation taken left =>
    cases left with
    | nil => exact accepted_does ht hown hbelow hstage
    | cons callback left =>
      have hcallback := htaken .accept callback (by simp [Sequence.callbacks, hstage])
      exact call_does ht hown hbelow module (.accepting module generation taken left) hcallback
        fun r => by simp only [Sequence.step, hstage]

/-- A turn of a realm is a deed of the realm. -/
theorem turn_does (hs : Sound w.scene) (hw : R.Within w) {turn : Turn} (hturn : R.Runs turn) :
    ∃ frames, R.Does w frames fun v => v.turn turn := by
  cases turn with
  | operate operation =>
    cases operation with
    | effect e => exact ⟨none, perform_does hw {} (by simp) hturn⟩
    | start command => cases hturn
    | cancel t => cases hturn
  | step t =>
    have hframes := hw.tasks t hturn
    have hsame : ∀ v, R.Agrees w v → v.tasks[t]? = w.tasks[t]? := fun v hv => hv.tasks t hturn
    cases htask : w.tasks[t]? with
    | none =>
      exact ⟨none, does_id.congr fun v hv => by simp [World.turn, World.step, hsame v hv, htask]⟩
    | some frames =>
      rw [htask, Option.getD_some] at hframes
      cases frames with
      | nil =>
        exact ⟨none, does_id.congr fun v hv => by simp [World.turn, World.step, hsame v hv, htask]⟩
      | cons frame below =>
        have hbelow : ∀ frame ∈ below, frame.Confined R w.registry :=
          fun frame hframe => hframes frame (List.mem_cons_of_mem _ hframe)
        have hstep : ∃ frames, R.Does w frames fun v => (v.stepFrame t frame below).1 := by
          cases hframes frame List.mem_cons_self with
          | @script scope rest hdata h =>
            cases rest with
            | nil => exact ⟨_, leave_does _ hturn hbelow does_id⟩
            | cons action rest => exact act_does hw hturn hframes
          | request job => exact request_does hs job hturn hbelow
          | sequence answer own => exact sequence_does hw hturn htask hframes
        obtain ⟨frames, hdoes⟩ := hstep
        exact ⟨frames, hdoes.congr fun v hv => by simp [World.turn, World.step, hsame v hv, htask]⟩

end Realm

end ModuleHost.Hot
