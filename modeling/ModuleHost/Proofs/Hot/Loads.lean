import ModuleHost.Proofs.Hot.Change

/-! The loads of a path are numbered in the order in which they begin. -/

namespace ModuleHost.Hot

open ModuleHost.Json

namespace World

/-- The numbers of the loads of a path in the order in which they began. -/
def loads (w : World) (path : String) : List Nat :=
  ((w.versions.filter (·.1 = path)).map Prod.snd).reverse

@[simp] theorem record_versions (w : World) (e : Entry) : (w.record e).versions = w.versions := rfl

@[simp] theorem report_versions (w : World) (es : List Log.Event) :
    (w.report es).versions = w.versions := rfl

@[simp] theorem setFrames_versions (w : World) (t : Nat) (frames : List Frame) :
    (w.setFrames t frames).versions = w.versions := rfl

@[simp] theorem recordAnswer_versions (w : World) (action : String) (answer : Answer) :
    (w.recordAnswer action answer).versions = w.versions := by
  cases answer <;> rfl

@[simp] theorem reportFailure_versions (w : World) (s : Running) (failure : Option Failure) :
    (w.reportFailure s failure).versions = w.versions := by
  cases failure <;> rfl

@[simp] theorem bind_versions (w : World) (name : Option String) (id : Nat) :
    (w.bind name id).versions = w.versions := by
  cases name <;> rfl

@[simp] theorem perform_versions (w : World) (scope : Scope) (effect : Effect Action) :
    (w.perform scope effect).1.versions = w.versions := by
  cases effect
  all_goals
    simp only [perform, withHandle, withData, alter]
    repeat' split
    all_goals simp

@[simp] theorem start_versions (w : World) (command : Command Action) :
    (w.start command).1.versions = w.versions := by
  cases command with
  | message text =>
    simp only [start]
    split <;> rfl
  | _ => rfl

@[simp] theorem advanceEvent_versions (w : World) (p : Progress) (returned : Returned) :
    (w.advanceEvent p returned).1.versions = w.versions := by
  unfold advanceEvent
  split <;> rfl

@[simp] theorem leave_versions (w : World) (t : Nat) (below : List Frame) (returned : Returned) :
    (w.leave t below returned).versions = w.versions := by
  cases below with
  | nil => simp [leave]
  | cons frame rest =>
    cases frame with
    | sequence answer s => cases returned <;> simp [leave]
    | _ => simp [leave]

@[simp] theorem act_versions (w : World) (t : Nat) (scope : Scope) (action : Action)
    (rest : List Action) (below : List Frame) :
    (w.act t scope action rest below).1.versions = w.versions := by
  cases action with
  | wait gate =>
    simp only [act]
    split <;> simp
  | _ => simp [act]

@[simp] theorem request_versions (w : World) (t : Nat) (path : String) (job : Job Value)
    (below : List Frame) : (w.request t path job below).versions = w.versions := by
  unfold request
  repeat' split
  all_goals simp

@[simp] theorem advanceSequence_versions (w : World) (t : Nat) (answer : Returned) (s : Running)
    (below : List Frame) : (w.advanceSequence t answer s below).versions = w.versions := by
  unfold advanceSequence
  dsimp only
  repeat' split
  all_goals simp

def latest (versions : List (String × Nat)) (path : String) : Nat :=
  ((versions.find? (·.1 = path)).map Prod.snd).getD 0

theorem load_versions (w : World) (t : Nat) (path : String) (left : List String)
    (below : List Frame) :
    (w.load t path left below).versions = (path, latest w.versions path + 1) :: w.versions := by
  unfold load
  dsimp only
  split <;> simp [latest]

theorem turn_versions (w : World) (turn : Turn) : (w.turn turn).versions = w.versions ∨
    ∃ path, (w.turn turn).versions = (path, latest w.versions path + 1) :: w.versions := by
  cases turn with
  | operate operation =>
    left
    cases operation with
    | effect effect => exact perform_versions w {} effect
    | start command => exact start_versions w command
    | cancel t =>
      simp only [World.turn, operate, cancel]
      split <;> rfl
  | step t =>
    simp only [World.turn, step]
    split
    · rename_i frame below ht
      cases frame with
      | script scope actions => cases actions <;> exact .inl (by simp [stepFrame])
      | request path job => exact .inl (by simp [stepFrame])
      | sequence answer s => exact .inl (by simp [stepFrame])
      | message m => exact .inl (by simp [stepFrame])
      | progress p =>
        cases p with
        | updating paths =>
          cases paths with
          | nil => exact .inl (by simp [stepFrame, advanceProgress])
          | cons path left => exact .inr ⟨path, by simp [stepFrame, advanceProgress, load_versions]⟩
        | pruning paths => cases paths <;> exact .inl (by simp [stepFrame, advanceProgress])
        | _ => exact .inl (by simp [stepFrame, advanceProgress])
    · exact .inl rfl

def Numbered (versions : List (String × Nat)) : Prop :=
  ∀ path, ∃ n, (versions.filter (·.1 = path)).map Prod.snd = (List.range' 1 n).reverse

theorem Numbered.latest {versions : List (String × Nat)} {path : String} {n : Nat}
    (h : (versions.filter (·.1 = path)).map Prod.snd = (List.range' 1 n).reverse) :
    latest versions path = n := by
  have hhead : (versions.find? (·.1 = path)).map Prod.snd =
      ((versions.filter (·.1 = path)).map Prod.snd).head? := by
    rw [List.head?_map, List.head?_filter]
  rw [World.latest, hhead, h, List.head?_reverse, List.getLast?_range']
  cases n <;> simp

theorem Numbered.cons {versions : List (String × Nat)} (h : Numbered versions) (path : String) :
    Numbered ((path, World.latest versions path + 1) :: versions) := by
  intro p
  obtain ⟨n, hn⟩ := h p
  by_cases hp : path = p
  · subst hp
    refine ⟨n + 1, ?_⟩
    rw [Numbered.latest hn]
    simp [hn, List.range'_concat, Nat.add_comm]
  · exact ⟨n, by simpa [hp] using hn⟩

theorem after_numbered (w : World) (turns : List Turn) (h : Numbered w.versions) :
    Numbered (w.after turns).versions := by
  induction turns generalizing w with
  | nil => exact h
  | cons turn turns ih =>
    apply ih
    rcases turn_versions w turn with hsame | ⟨path, hload⟩
    · exact hsame ▸ h
    · exact hload ▸ h.cons path

theorem loads_numbered (modules : List (String × List Action)) (turns : List Turn)
    (path : String) : ∃ n, ((initial modules).after turns).loads path = List.range' 1 n := by
  have h : Numbered ((initial modules).after turns).versions :=
    after_numbered _ _ fun _ => ⟨0, rfl⟩
  obtain ⟨n, hn⟩ := h path
  exact ⟨n, by rw [loads, hn, List.reverse_reverse]⟩

end World

end ModuleHost.Hot
