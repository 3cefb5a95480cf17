import ModuleHost.Proofs.Hot.Realm

/-! Independence of paths. Turns of two realms that are apart may be interleaved in any order: each
realm ends as it does alone, and the same happens to its contexts. -/

namespace ModuleHost.Hot

open ModuleHost.Json

/-! ### What happens in turns of a realm -/

/-- Something that happens to a context of a realm; what is registered keeps to the realm. -/
structure Happening.Confined (R : Realm) (r : Contexts) (h : Happening) : Prop where
  own : R.Owns r h.context
  registered : ∀ id callback phase, h = .registers id callback phase → callback.Confined R phase

namespace Realm

variable {P R : Realm} {u v w : World} {scope : Scope} {e : Effect Action} {frames : List Frame}
  {turn : Turn}

theorem dataOf?_owned (hw : R.Within w) {handle : Option String}
    (hdata : ∀ id ∈ scope.data, R.Owns w.registry id)
    (hnames : R.Names scope.data.isSome handle) :
    ∀ id ∈ w.dataOf? scope handle, R.Owns w.registry id := by
  unfold World.dataOf?
  cases handle with
  | some name => exact hw.handles name hnames
  | none =>
    cases hscope : scope.data with
    | some id =>
      rintro _ ⟨⟩
      exact hdata id hscope
    | none =>
      rw [hscope] at hnames
      exact hw.handles "" (hnames.resolve_left (by simp))

theorem effectHappenings_confined (hw : R.Within w) (scope : Scope)
    (hdata : ∀ id ∈ scope.data, R.Owns w.registry id)
    (he : Effect.Confined R scope.data.isSome e) :
    ∀ h ∈ w.effectHappenings scope e, h.Confined R w.registry := by
  intro h hmem
  cases he with
  | @accept _ handle c own hc =>
    obtain ⟨id, hid, rfl⟩ := List.mem_map.mp hmem
    refine ⟨hw.handles handle own id (Option.mem_toList.mp hid), fun j callback phase heq => ?_⟩
    cases phase with
    | accept => cases heq; exact hc
    | dispose => cases heq
  | @dispose _ handle c own hc =>
    obtain ⟨id, hid, rfl⟩ := List.mem_map.mp hmem
    refine ⟨hw.handles handle own id (Option.mem_toList.mp hid), fun j callback phase heq => ?_⟩
    cases phase with
    | accept => cases heq
    | dispose => cases heq; exact hc
  | plain hplain =>
    cases e with
    | acceptSelf handle =>
      obtain ⟨id, hid, rfl⟩ := List.mem_map.mp hmem
      exact ⟨hw.handles handle hplain id (Option.mem_toList.mp hid), by rintro j c ⟨⟩ ⟨⟩⟩
    | set handle key value =>
      obtain ⟨id, hid, rfl⟩ := List.mem_map.mp hmem
      exact ⟨dataOf?_owned hw hdata hplain id (Option.mem_toList.mp hid), by rintro j c ⟨⟩ ⟨⟩⟩
    | delete handle key =>
      obtain ⟨id, hid, rfl⟩ := List.mem_map.mp hmem
      exact ⟨dataOf?_owned hw hdata hplain id (Option.mem_toList.mp hid), by rintro j c ⟨⟩ ⟨⟩⟩
    | create path handle => cases hplain
    | accept handle callback => cases hplain
    | dispose handle callback => cases hplain
    | _ => cases hmem

theorem sequence_happening_confined {s : Running} {r : Contexts} (own : R.Owns r s.context) :
    s.happening.Confined R r := by
  unfold Sequence.happening
  split
  all_goals exact ⟨own, by rintro j c ⟨⟩ ⟨⟩⟩

theorem stepHappenings_confined (hs : Sound w.scene) (hw : R.Within w)
    (hframes : ∀ frame ∈ frames, frame.Confined R w.registry) :
    ∀ h ∈ w.stepHappenings frames, h.Confined R w.registry := by
  intro h hmem
  have returned : ∀ {scope : Scope} {rest : List Action} {answer : Returned} {s : Running}
      {below : List Frame}, frames = .script scope rest :: .sequence answer s :: below →
      Happening.Confined R w.registry (.returned s.context s.phase) := by
    rintro scope rest answer s below rfl
    cases hframes (.sequence answer s) (by simp) with
    | sequence _ own => exact ⟨own, by rintro j c ⟨⟩ ⟨⟩⟩
  unfold World.stepHappenings at hmem
  split at hmem
  · obtain rfl := List.mem_singleton.mp hmem
    exact returned rfl
  · obtain rfl := List.mem_singleton.mp hmem
    exact returned rfl
  · obtain rfl := List.mem_singleton.mp hmem
    exact returned rfl
  · cases hframes _ List.mem_cons_self with
    | script _ hdata hactions =>
      cases hactions _ List.mem_cons_self with
      | effect he => exact effectHappenings_confined hw _ hdata he h hmem
  · obtain ⟨id, hid, rfl⟩ := List.mem_map.mp hmem
    cases hframes _ List.mem_cons_self with
    | request => exact ⟨owns_found hs (Option.mem_toList.mp hid), by rintro j c ⟨⟩ ⟨⟩⟩
  · obtain rfl := List.mem_singleton.mp hmem
    cases hframes _ List.mem_cons_self with
    | sequence _ own => exact sequence_happening_confined own
  · cases hmem

theorem happenings_confined (hs : Sound w.scene) (hw : R.Within w) (hturn : R.Runs turn) :
    ∀ h ∈ w.happenings turn, h.Confined R w.registry := by
  cases turn with
  | step t => exact stepHappenings_confined hs hw (hw.tasks t hturn)
  | operate operation =>
    cases operation with
    | effect e => exact effectHappenings_confined hw {} (by simp) hturn
    | start command => cases hturn
    | cancel t => cases hturn

theorem Agrees.effectHappenings (h : R.Agrees w v) {given : Bool} (he : Effect.Confined R given e) :
    v.effectHappenings scope e = w.effectHappenings scope e := by
  have hdata : ∀ handle, v.dataOf? scope handle = w.dataOf? scope handle := fun handle => by
    simp only [World.dataOf?, h.handle?]
  cases he with
  | accept own hc => simp only [World.effectHappenings, h.handle?]
  | dispose own hc => simp only [World.effectHappenings, h.handle?]
  | plain hplain =>
    cases e with
    | acceptSelf handle => simp only [World.effectHappenings, h.handle?]
    | set handle key value => simp only [World.effectHappenings, hdata]
    | delete handle key => simp only [World.effectHappenings, hdata]
    | create path handle => cases hplain
    | accept handle callback => cases hplain
    | dispose handle callback => cases hplain
    | _ => rfl

theorem Agrees.stepHappenings (h : R.Agrees w v)
    (hframes : ∀ frame ∈ frames, frame.Confined R w.registry) :
    v.stepHappenings frames = w.stepHappenings frames := by
  unfold World.stepHappenings
  split
  · rfl
  · rfl
  · rfl
  · cases hframes _ List.mem_cons_self with
    | script _ hdata hactions =>
      cases hactions _ List.mem_cons_self with
      | effect he => exact h.effectHappenings he
  · cases hframes _ List.mem_cons_self with
    | request => rw [h.registry.find?]
  · rfl
  · rfl

theorem Agrees.happenings (h : R.Agrees w v) (hw : R.Within w) (hturn : R.Runs turn) :
    v.happenings turn = w.happenings turn := by
  cases turn with
  | step t =>
    simp only [World.happenings, h.tasks t hturn]
    exact h.stepHappenings (hw.tasks t hturn)
  | operate operation =>
    cases operation with
    | effect e => exact h.effectHappenings hturn
    | start command => cases hturn
    | cancel t => cases hturn

end Realm

/-! ### Turns and realms -/

theorem World.of_unlogged {u v : World} (h : u.unlogged = v.unlogged) : u.registry = v.registry ∧
    u.handles = v.handles ∧ u.openGates = v.openGates ∧ u.tasks = v.tasks := by
  simp only [World.unlogged, World.mk.injEq] at h
  exact ⟨h.1, h.2.1, h.2.2.1, h.2.2.2.2.2.1⟩

theorem Frame.Confined.mono {R : Realm} {r s : Contexts} {frame : Frame} (h : frame.Confined R r)
    (howns : ∀ id, R.Owns r id → R.Owns s id) : frame.Confined R s := by
  cases h with
  | script scope data hactions =>
    exact .script scope (fun id hid => howns id (data id hid)) hactions
  | request job => exact .request job
  | sequence answer own => exact .sequence answer (howns _ own)

theorem Deed.Fits.tasks_confined {R : Realm} {w : World} {d : Deed} (hd : d.Fits R w.registry)
    (hw : R.Within w) : ∀ t ∈ R.tasks, ∀ frame ∈ ((d.tasks w.tasks)[t]?).getD [],
      frame.Confined R w.registry := by
  intro t ht frame hframe
  unfold Deed.tasks at hframe
  split at hframe
  · exact hw.tasks t ht frame hframe
  · rename_i t' frames hframes
    by_cases htt : t' = t
    · subst htt
      rw [List.getElem?_set_self'] at hframe
      cases hold : w.tasks[t']? with
      | none => simp [hold] at hframe
      | some old => exact (hd.frames t' frames hframes).2 frame (by simpa [hold] using hframe)
    · rw [List.getElem?_set_ne htt] at hframe
      exact hw.tasks t ht frame hframe

namespace Realm

variable {P R : Realm} {u v w : World} {turn : Turn}

theorem Agrees.symm (h : R.Agrees u v) : R.Agrees v u where
  registry := ⟨fun id hid => (h.registry.contexts id hid.symm).symm, h.registry.entries.symm⟩
  handles := h.handles.symm
  gates := fun gate hgate => (h.gates gate hgate).symm
  tasks := fun t ht => (h.tasks t ht).symm

theorem Agrees.of_unlogged {u' v' : World} (h : R.Agrees u v) (hu : u'.unlogged = u.unlogged)
    (hv : v'.unlogged = v.unlogged) : R.Agrees u' v' := by
  have hlog : R.Agrees u.unlogged v.unlogged := ⟨h.registry, h.handles, h.gates, h.tasks⟩
  rw [← hu, ← hv] at hlog
  exact ⟨hlog.registry, hlog.handles, hlog.gates, hlog.tasks⟩

section

variable (hs : Sound w.scene) (hw : R.Within w) (hturn : R.Runs turn)

include hs hw hturn

theorem turn_deed : ∃ d : Deed, d.Fits R w.registry ∧
    ∀ v, R.Agrees w v → (v.turn turn).unlogged = (d.apply R.path v).unlogged := by
  obtain ⟨-, d, hd, -, hdoes⟩ := turn_does hs hw hturn
  exact ⟨d, hd, hdoes⟩

theorem Agrees.after_turn (h : R.Agrees w v) : R.Agrees (w.turn turn) (v.turn turn) := by
  obtain ⟨d, hd, hdoes⟩ := turn_deed hs hw hturn
  exact (d.agrees hd h).of_unlogged (hdoes w .refl) (hdoes v h)

theorem Apart.agrees (hapart : P.Apart R) : P.Agrees w (w.turn turn) := by
  obtain ⟨d, hd, hdoes⟩ := turn_deed hs hw hturn
  exact (d.foreign hd hapart).of_unlogged rfl (hdoes w .refl)

theorem turn_owns (P : Realm) (id : Nat) :
    P.Owns (w.turn turn).registry id ↔ P.Owns w.registry id := by
  obtain ⟨d, hd, hdoes⟩ := turn_deed hs hw hturn
  rw [(World.of_unlogged (hdoes w .refl)).1]
  exact touches_owns hd.touches P id

theorem turn_handles : (w.turn turn).handles = w.handles := by
  obtain ⟨d, hd, hdoes⟩ := turn_deed hs hw hturn
  exact (World.of_unlogged (hdoes w .refl)).2.1

theorem turn_frames {t : Nat} (ht : t ∈ R.tasks) :
    ∀ frame ∈ ((w.turn turn).tasks[t]?).getD [], frame.Confined R w.registry := by
  obtain ⟨d, hd, hdoes⟩ := turn_deed hs hw hturn
  rw [(World.of_unlogged (hdoes w .refl)).2.2.2]
  exact hd.tasks_confined hw t ht

theorem turn_callbacks (hstacked : w.WellStacked) {id : Nat} {phase : Phase}
    {callback : Callback Action} (hkept : Kept (w.turn turn).scene id phase callback) :
    Kept w.scene id phase callback ∨ R.Owns w.registry id ∧ callback.Confined R phase := by
  obtain ⟨hchanges, -⟩ := World.turn_changes w turn hstacked
  refine (hchanges.kept hkept).imp_right fun hregistered => ?_
  have hconfined := happenings_confined hs hw hturn _ hregistered
  have hown := hconfined.own
  cases phase <;> exact ⟨hown, hconfined.registered id callback _ rfl⟩

theorem within_turn (hp : P.Within w) (hstacked : w.WellStacked)
    (callbacks : ∀ id phase (callback : Callback Action), P.Owns w.registry id →
      R.Owns w.registry id → callback.Confined R phase → callback.Confined P phase)
    (frames : ∀ t ∈ P.tasks, ∀ frame ∈ ((w.turn turn).tasks[t]?).getD [],
      frame.Confined P w.registry) : P.Within (w.turn turn) := by
  have howns := turn_owns hs hw hturn P
  refine ⟨fun name hname id hid => ?_, fun id phase callback hid hkept => ?_,
    fun t ht frame hframe => (frames t ht frame hframe).mono fun id => (howns id).mpr⟩
  · rw [howns]
    refine hp.handles name hname id ?_
    rwa [World.handle?, turn_handles hs hw hturn] at hid
  · have hown := (howns id).mp hid
    rcases turn_callbacks hs hw hturn hstacked hkept with hbefore | ⟨hother, hnew⟩
    · exact hp.callbacks id phase callback hown hbefore
    · exact callbacks id phase callback hown hother hnew

theorem Within.own (hstacked : w.WellStacked) : R.Within (w.turn turn) :=
  within_turn hs hw hturn hw hstacked (fun _ _ _ _ _ h => h) fun _ => turn_frames hs hw hturn

theorem Apart.within (hapart : P.Apart R) (hp : P.Within w) (hstacked : w.WellStacked) :
    P.Within (w.turn turn) := by
  refine within_turn hs hw hturn hp hstacked (fun id phase callback hown hother _ => ?_)
    fun t ht => ?_
  · exact absurd (Option.some.inj (hown.symm.trans hother)) hapart.path
  · rw [(hapart.agrees hs hw hturn).tasks t ht]
    exact hp.tasks t ht

end

/-- Where nothing but requests is under way, what is listed on contexts has to keep to the realm. -/
theorem within_requests (hidle : w.flights = [])
    (handles : ∀ name ∈ R.handles, ∀ id ∈ w.handle? name, R.Owns w.registry id)
    (listed : ∀ c ∈ w.registry.contexts, c.path = R.path → ∀ phase, ∀ callback ∈ c.callbacks phase,
      callback.Confined R phase)
    (requests : ∀ t ∈ R.tasks, ∃ job, w.tasks[t]? = some [.request R.path job]) :
    R.Within w where
  handles := handles
  callbacks := by
    intro id phase callback hown hkept
    rcases hkept with ⟨c, hc, hmem⟩ | ⟨f, hf, -⟩
    · rw [Owns, show w.registry.context? id = some c from hc] at hown
      exact listed c (List.mem_of_getElem? hc) (Option.some.inj hown) phase callback hmem
    · rw [World.scene, hidle] at hf
      cases hf
  tasks := by
    intro t ht frame hframe
    obtain ⟨job, htask⟩ := requests t ht
    rw [htask] at hframe
    obtain rfl := List.mem_singleton.mp hframe
    exact .request job

/-! ### Interleavings -/

abbrev Seen := Happening × Option (Context (Callback Action) Value)

/-- What happens to the contexts of a realm in a turn, each time with the context as it is found. -/
def sees (R : Realm) (w : World) (turn : Turn) : List Seen :=
  ((w.happenings turn).filter fun h => R.Owns w.registry h.context).map fun h =>
    (h, w.registry.context? h.context)

/-- All that happens to the contexts of a realm in a run. The calls of callbacks are among it, with
the instance and the data that each is given. -/
def history (R : Realm) (w : World) : List Turn → List Seen
  | [] => []
  | turn :: turns => R.sees w turn ++ R.history (w.turn turn) turns

theorem Agrees.sees (h : R.Agrees w v) (hw : R.Within w) (hturn : R.Runs turn) :
    R.sees v turn = R.sees w turn := by
  have hfilter : (v.happenings turn).filter (fun h => R.Owns v.registry h.context) =
      (w.happenings turn).filter fun h => R.Owns w.registry h.context := by
    rw [h.happenings hw hturn]
    exact List.filter_congr fun k _ => by simp only [h.registry.owns]
  unfold Realm.sees
  rw [hfilter]
  refine List.map_congr_left fun k hk => ?_
  rw [h.context? (of_decide_eq_true (List.mem_filter.mp hk).2)]

theorem Apart.sees (hapart : P.Apart R) (hs : Sound w.scene) (hw : R.Within w)
    (hturn : R.Runs turn) : P.sees w turn = [] := by
  have hfilter : (w.happenings turn).filter (fun h => P.Owns w.registry h.context) = [] := by
    refine List.filter_eq_nil_iff.mpr fun h hmem => ?_
    have hother := (happenings_confined hs hw hturn h hmem).own
    rw [decide_eq_true_eq]
    exact fun hown => hapart.path (Option.some.inj (hown.symm.trans hother))
  rw [Realm.sees, hfilter, List.map_nil]

theorem Apart.symm (h : P.Apart R) : R.Apart P where
  path := h.path.symm
  gates := fun gate hgate hopens => h.opens gate hopens hgate
  opens := fun gate hopens hgate => h.gates gate hgate hopens
  tasks := fun t ht hp => h.tasks t hp ht

end Realm

/-- A list made of two others, each of which keeps its order. -/
inductive Interleaved {α : Type} : List α → List α → List α → Prop where
  | nil : Interleaved [] [] []
  | left {as bs cs : List α} (a : α) (h : Interleaved as bs cs) : Interleaved (a :: as) bs (a :: cs)
  | right {as bs cs : List α} (b : α) (h : Interleaved as bs cs) :
    Interleaved as (b :: bs) (b :: cs)

theorem Interleaved.symm {α : Type} {as bs cs : List α} (h : Interleaved as bs cs) :
    Interleaved bs as cs := by
  induction h with
  | nil => exact .nil
  | left a _ ih => exact .right a ih
  | right b _ ih => exact .left b ih

namespace World

variable {P Q : Realm} {ps qs turns : List Turn}

/-- One of the realms, in a world that goes through all turns and in one that goes through its own
only. The worlds agree after each turn: a turn of the realm does the same to both, and any other is
not noticed. -/
theorem interleaved_alone (h : Interleaved ps qs turns) (hapart : P.Apart Q)
    (hps : ∀ turn ∈ ps, P.Runs turn) (hqs : ∀ turn ∈ qs, Q.Runs turn) {w alone : World}
    (hagrees : P.Agrees w alone) (hstacked : w.WellStacked) (hs : Sound w.scene)
    (hp : P.Within w) (hq : Q.Within w) :
    P.Agrees (w.after turns) (alone.after ps) ∧ P.history w turns = P.history alone ps := by
  -- the realm agrees with the run alone, which moves on with its own turns only
  induction h generalizing w alone with
  | nil => exact ⟨hagrees, rfl⟩
  | left turn _ ih =>
    have hturn := hps turn List.mem_cons_self
    obtain ⟨hchanges, hstacked'⟩ := turn_changes w turn hstacked
    obtain ⟨hend, hhistory⟩ := ih (fun p hmem => hps p (List.mem_cons_of_mem _ hmem)) hqs
      (hagrees.after_turn hs hp hturn) hstacked' (hchanges.sound hs)
      (hp.own hs hturn hstacked) (hapart.symm.within hs hp hturn hq hstacked)
    refine ⟨hend, ?_⟩
    rw [Realm.history, Realm.history, hhistory, hagrees.sees hp hturn]
  | right turn _ ih =>
    have hturn := hqs turn List.mem_cons_self
    obtain ⟨hchanges, hstacked'⟩ := turn_changes w turn hstacked
    obtain ⟨hend, hhistory⟩ := ih hps (fun q hmem => hqs q (List.mem_cons_of_mem _ hmem))
      ((hapart.agrees hs hq hturn).symm.trans hagrees) hstacked' (hchanges.sound hs)
      (hapart.within hs hq hturn hp hstacked) (hq.own hs hturn hstacked)
    refine ⟨hend, ?_⟩
    rw [Realm.history, hhistory, hapart.sees hs hq hturn, List.nil_append]

/-- Two paths are independent. Whenever the code of each keeps to its own realm, the turns of both
may be interleaved in any way: for both paths the contexts and what is registered in the end are
those that it has alone, and the same happens to them in the same order, with the same callbacks
called with the same arguments. All interleavings end alike. -/
theorem paths_independent (modules : List (String × List Action)) (before : List Turn)
    (P Q : Realm) (ps qs : List Turn) (hapart : P.Apart Q)
    (hp : P.Within ((initial modules).after before))
    (hq : Q.Within ((initial modules).after before))
    (hps : ∀ turn ∈ ps, P.Runs turn) (hqs : ∀ turn ∈ qs, Q.Runs turn) :
    let v := (initial modules).after before
    ∀ turns, Interleaved ps qs turns →
      (P.Agrees (v.after ps) (v.after turns) ∧ P.history v turns = P.history v ps) ∧
      (Q.Agrees (v.after qs) (v.after turns) ∧ Q.history v turns = Q.history v qs) ∧
      ∀ turns', Interleaved ps qs turns' →
        P.Agrees (v.after turns) (v.after turns') ∧ Q.Agrees (v.after turns) (v.after turns') := by
  intro v
  have hstacked : v.WellStacked := after_wellStacked modules before
  have hsound : Sound v.scene := run_sound modules before
  -- either realm sees what it would see alone; two interleavings agree through that run
  have alone : ∀ turns, Interleaved ps qs turns →
      (P.Agrees (v.after ps) (v.after turns) ∧ P.history v turns = P.history v ps) ∧
      (Q.Agrees (v.after qs) (v.after turns) ∧ Q.history v turns = Q.history v qs) := by
    intro turns h
    obtain ⟨hendP, hhistoryP⟩ :=
      interleaved_alone h hapart hps hqs .refl hstacked hsound hp hq
    obtain ⟨hendQ, hhistoryQ⟩ :=
      interleaved_alone h.symm hapart.symm hqs hps .refl hstacked hsound hq hp
    exact ⟨⟨hendP.symm, hhistoryP⟩, hendQ.symm, hhistoryQ⟩
  intro turns h
  obtain ⟨hP, hQ⟩ := alone turns h
  refine ⟨hP, hQ, fun turns' h' => ?_⟩
  obtain ⟨hP', hQ'⟩ := alone turns' h'
  exact ⟨hP.1.symm.trans hP'.1, hQ.1.symm.trans hQ'.1⟩

def waitingCallback (gate : String) (handle : Option String) : Callback Action :=
  ⟨[], [.wait gate, .effect (.set handle "k" .null)]⟩

def twoRequests : List Turn :=
  [.operate (.effect (.create "/a" (some "a"))), .operate (.effect (.create "/b" (some "b"))),
    .operate (.effect (.accept "a" (waitingCallback "ga" (some "a")))),
    .operate (.effect (.dispose "b" (waitingCallback "gb" none))),
    .operate (.start (.apply "/a" (some .null))), .operate (.start (.prune "/b"))]

def updatedRealm : Realm := ⟨"/a", ["a"], ["ga"], ["ga"], [0]⟩

def prunedRealm : Realm := ⟨"/b", ["b"], ["gb"], ["gb"], [1]⟩

theorem twoRequests_registry : ((initial []).after twoRequests).registry =
    ⟨[{ path := "/a", accepts := [waitingCallback "ga" (some "a")] },
        { path := "/b", disposes := [waitingCallback "gb" none] }],
      [("/b", 1), ("/a", 0)]⟩ := by cbv

theorem waitingCallback_confined {R : Realm} {phase : Phase} {gate : String}
    {handle : Option String} (hgate : gate ∈ R.gates)
    (hnames : R.Names (phase == .dispose) handle) :
    (waitingCallback gate handle).Confined R phase :=
  List.forall_mem_cons.mpr ⟨.wait hgate, List.forall_mem_singleton.mpr (.effect (.plain hnames))⟩

theorem updatedRealm_within : updatedRealm.Within ((initial []).after twoRequests) := by
  refine Realm.within_requests (by cbv) ?_ ?_ ?_
  · refine List.forall_mem_singleton.mpr fun id hid => ?_
    have hhandle : ((initial []).after twoRequests).handle? "a" = some 0 := by cbv
    obtain rfl := Option.some.inj (hhandle.symm.trans hid)
    rw [twoRequests_registry]
    rfl
  · rw [twoRequests_registry]
    refine List.forall_mem_cons.mpr ⟨fun _ phase callback hmem => ?_,
      List.forall_mem_singleton.mpr fun hpath => absurd hpath (by decide)⟩
    cases phase with
    | dispose => cases hmem
    | accept =>
      obtain rfl := List.mem_singleton.mp hmem
      exact waitingCallback_confined (by decide) (List.mem_singleton.mpr rfl)
  · refine List.forall_mem_singleton.mpr ⟨.update (some .null), ?_⟩
    cbv

theorem prunedRealm_within : prunedRealm.Within ((initial []).after twoRequests) := by
  refine Realm.within_requests (by cbv) ?_ ?_ ?_
  · refine List.forall_mem_singleton.mpr fun id hid => ?_
    have hhandle : ((initial []).after twoRequests).handle? "b" = some 1 := by cbv
    obtain rfl := Option.some.inj (hhandle.symm.trans hid)
    rw [twoRequests_registry]
    rfl
  · rw [twoRequests_registry]
    refine List.forall_mem_cons.mpr ⟨fun hpath => absurd hpath (by decide),
      List.forall_mem_singleton.mpr fun _ phase callback hmem => ?_⟩
    cases phase with
    | accept => cases hmem
    | dispose =>
      obtain rfl := List.mem_singleton.mp hmem
      exact waitingCallback_confined (by decide) (.inl rfl)
  · refine List.forall_mem_singleton.mpr ⟨.prune, ?_⟩
    cbv

def updateTurns : List Turn :=
  [.step 0, .step 0, .step 0, .step 0, .step 0, .operate (.effect (.openGate "ga")), .step 0,
    .step 0, .step 0, .step 0]

def pruneTurns : List Turn :=
  [.step 1, .step 1, .step 1, .step 1, .operate (.effect (.openGate "gb")), .step 1, .step 1,
    .step 1, .step 1]

def mixedTurns : List Turn :=
  [.step 0, .step 1, .step 0, .step 1, .step 1, .step 0, .step 0, .step 0, .step 1,
    .operate (.effect (.openGate "gb")), .step 1, .operate (.effect (.openGate "ga")), .step 0,
    .step 0, .step 1, .step 1, .step 1, .step 0, .step 0]

open Interleaved in
theorem mixedTurns_interleaved : Interleaved updateTurns pruneTurns mixedTurns :=
  left _ <| right _ <| left _ <| right _ <| right _ <| left _ <| left _ <| left _ <| right _ <|
    right _ <| right _ <| left _ <| left _ <| left _ <| right _ <| right _ <| right _ <| left _ <|
    left _ .nil

theorem updateTurns_runs : ∀ turn ∈ updateTurns, updatedRealm.Runs turn := by
  have hopen : Effect.Confined updatedRealm false (.openGate "ga") :=
    .plain (List.mem_singleton.mpr rfl)
  simpa [updateTurns, Realm.Runs, updatedRealm] using hopen

theorem pruneTurns_runs : ∀ turn ∈ pruneTurns, prunedRealm.Runs turn := by
  have hopen : Effect.Confined prunedRealm false (.openGate "gb") :=
    .plain (List.mem_singleton.mpr rfl)
  simpa [pruneTurns, Realm.Runs, prunedRealm] using hopen

theorem realms_apart : updatedRealm.Apart prunedRealm :=
  ⟨by decide, by decide, by decide, by decide⟩

theorem paths_independent_mixedTurns :
    let v := (initial []).after twoRequests
    updatedRealm.Apart prunedRealm ∧ Interleaved updateTurns pruneTurns mixedTurns ∧
    (v.after mixedTurns).registry.context? 0 =
      some { path := "/a"
             accepts := [waitingCallback "ga" (some "a")]
             data := ⟨[("k", .null)]⟩ } ∧
    (v.after mixedTurns).registry.find? "/b" = none ∧
    (updatedRealm.history v mixedTurns).map Prod.fst =
      [.asked 0 (.update (some .null)), .begun 0 (.update (some .null)), .turned 0,
        .called 0 .accept (waitingCallback "ga" (some "a")) (some .null), .wrote 0,
        .returned 0 .accept, .ended 0 (.update (some .null))] ∧
    (prunedRealm.history v mixedTurns).map Prod.fst =
      [.asked 1 .prune, .begun 1 .prune, .called 1 .dispose (waitingCallback "gb" none) none,
        .wrote 1, .returned 1 .dispose, .ended 1 .prune] := by
  intro v
  obtain ⟨⟨hupdated, hupdates⟩, ⟨hpruned, hprunes⟩, -⟩ :=
    paths_independent [] twoRequests updatedRealm prunedRealm updateTurns pruneTurns realms_apart
      updatedRealm_within prunedRealm_within updateTurns_runs pruneTurns_runs mixedTurns
      mixedTurns_interleaved
  have hcontext : (v.after updateTurns).registry.context? 0 =
      some { path := "/a"
             accepts := [waitingCallback "ga" (some "a")]
             data := ⟨[("k", .null)]⟩ } := by cbv
  have hgone : (v.after pruneTurns).registry.find? "/b" = none := by cbv
  have howned : updatedRealm.Owns (v.after updateTurns).registry 0 := by
    rw [Realm.Owns, hcontext]
    rfl
  refine ⟨realms_apart, mixedTurns_interleaved, (hupdated.context? howned).trans hcontext,
    hpruned.registry.find?.trans hgone, ?_, ?_⟩
  · rw [hupdates]
    cbv
  · rw [hprunes]
    cbv

end World

end ModuleHost.Hot
