import Mathlib.Data.List.Induction
import WasmSnapshot.Proofs.Accessor.Symbols
import WasmSnapshot.Proofs.Snapshot.WriteBack

/-! Runs of a tracked instance. It is captured and resumed in any order, and in between the host does
with the store what it likes, calls into the instance included. The tracking learns of the former
only. So an instance that is taken for captured has been captured, and not been resumed since, but
whether it still holds what was captured then depends on what the host has done. -/

namespace WasmSnapshot

/-- What is done with a tracked instance and with the store that it is in. -/
inductive Session.Action where
  | hibernate
  | resume (snapshot : Snapshot)
  | host (event : Event)

/-- A tracked instance in a store, and the snapshot that it gave last. -/
structure Session where
  tracked : TrackedInstance
  store : Store
  last : Option Snapshot := none

namespace Session

variable [Host]

/-- Whether an action is one that resumes the instance. -/
def Action.resumes : Action → Bool
  | resume _ => true
  | hibernate | host _ => false

/-- What an action does to the store, if the instance is not taken for captured. -/
def Action.event (symbol : String) (inst : Instance) : Action → Event
  | hibernate => .capture symbol inst
  | resume snapshot => .restore snapshot inst
  | host event => event

/-- The session after an action, which may have failed. -/
def after (session : Session) : Action → Session
  | .hibernate =>
    let ((tracked, outcome), store) := session.tracked.hibernate.run session.store
    { tracked, store, last := outcome.toOption <|> session.last }
  | .resume snapshot =>
    let ((tracked, _outcome), store) := (session.tracked.resume snapshot).run session.store
    { session with tracked, store }
  | .host event => { session with store := event.after session.store }

/-- The session after a run of actions. -/
def afterAll (session : Session) (actions : List Action) : Session := actions.foldl after session

variable {session start : Session} {actions : List Action} {action : Action} {next : Store}
  {snapshot : Snapshot} {e : AccessError}

theorem afterAll_concat : start.afterAll (actions ++ [action]) = (start.afterAll actions).after action :=
  List.foldl_append

/-! ### One action -/

theorem after_hibernate_of_ok (h : session.store.run
    (Snapshot.capture session.tracked.symbol session.tracked.inst) = (.ok snapshot, next)) :
    session.after .hibernate =
      { tracked := { session.tracked with state := .captured }, store := next, last := snapshot } := by
  rw [after, TrackedInstance.run_hibernate_of_ok h]
  rfl

theorem after_hibernate_of_error (h : session.store.run
    (Snapshot.capture session.tracked.symbol session.tracked.inst) = (.error e, next)) :
    session.after .hibernate = { session with store := next } := by
  rw [after, TrackedInstance.run_hibernate_of_error h]
  rfl

theorem after_resume_captured (hstate : session.tracked.state = .captured) :
    session.after (.resume snapshot) =
      { session with tracked := { session.tracked with state := .normal } } := by
  rw [after, TrackedInstance.run_resume_captured _ _ hstate]

theorem after_resume_normal (hstate : session.tracked.state = .normal) :
    session.after (.resume snapshot) = { session with
      store := (Event.restore snapshot session.tracked.inst).after session.store } := by
  rw [after, TrackedInstance.run_resume_normal hstate rfl]
  rfl

/-- All that an action can do to a session. -/
inductive Moves (session : Session) : Action → Session → Prop where
  | captured {snapshot : Snapshot} {next : Store} (hrun : session.store.run
      (Snapshot.capture session.tracked.symbol session.tracked.inst) = (.ok snapshot, next)) :
      Moves session .hibernate
        { tracked := { session.tracked with state := .captured }, store := next, last := snapshot }
  | skipped {snapshot : Snapshot} (hstate : session.tracked.state = .captured) :
      Moves session (.resume snapshot)
        { session with tracked := { session.tracked with state := .normal } }
  | acted {action : Action} (hresumes : session.tracked.state = .captured → action.resumes = false) :
      Moves session action { session with
        store := (action.event session.tracked.symbol session.tracked.inst).after session.store }

theorem moves_after (session : Session) (action : Action) :
    session.Moves action (session.after action) := by
  cases action with
  | hibernate =>
    rcases hrun : session.store.run
      (Snapshot.capture session.tracked.symbol session.tracked.inst) with ⟨e | snapshot, next⟩
    · rw [after_hibernate_of_error hrun]
      have hnext : next = (Event.capture session.tracked.symbol session.tracked.inst).after
          session.store := by rw [Event.after, hrun]
      rw [hnext]
      exact .acted fun _ => rfl
    · rw [after_hibernate_of_ok hrun]
      exact .captured hrun
  | resume snapshot =>
    cases hstate : session.tracked.state with
    | captured =>
      rw [after_resume_captured hstate]
      exact .skipped hstate
    | normal =>
      rw [after_resume_normal hstate]
      exact .acted fun hcaptured => by rw [hstate] at hcaptured; cases hcaptured
  | host event => exact .acted fun _ => rfl

/-! ### Runs -/

theorem tracked_afterAll (start : Session) (actions : List Action) :
    (start.afterAll actions).tracked.inst = start.tracked.inst ∧
      (start.afterAll actions).tracked.symbol = start.tracked.symbol := by
  induction actions using List.reverseRecOn with
  | nil => exact ⟨rfl, rfl⟩
  | append_singleton actions action ih =>
    rw [afterAll_concat]
    have hmoves := (start.afterAll actions).moves_after action
    generalize (start.afterAll actions).after action = session at hmoves ⊢
    cases hmoves with
    | captured | skipped | acted => exact ih

/-- An action does to the store what the event does that it stands for, or else nothing. -/
theorem Moves.store_eq {session next : Session} (h : session.Moves action next) :
    next.store = (action.event session.tracked.symbol session.tracked.inst).after session.store ∨
      session.tracked.state = .captured ∧ action.resumes = true ∧ next.store = session.store := by
  cases h with
  | captured hrun => exact .inl (by rw [Action.event, Event.after, hrun])
  | skipped hstate => exact .inr ⟨hstate, rfl, rfl⟩
  | acted => exact .inl rfl

theorem store_afterAll (start : Session) (actions : List Action) :
    ∃ events, (start.afterAll actions).store = start.store.afterAll events := by
  induction actions using List.reverseRecOn with
  | nil => exact ⟨[], rfl⟩
  | append_singleton actions action ih =>
    obtain ⟨events, hstore⟩ := ih
    rw [afterAll_concat]
    rcases ((start.afterAll actions).moves_after action).store_eq with hevent | ⟨-, -, hkept⟩
    · rw [hevent, hstore, ← Store.afterAll_concat]
      exact ⟨_, rfl⟩
    · exact ⟨events, hkept.trans hstore⟩

theorem exists_hibernate_of_captured (hstart : start.tracked.state = .normal)
    (hstate : (start.afterAll actions).tracked.state = .captured) :
    ∃ earlier later snapshot captured, actions = earlier ++ .hibernate :: later ∧
      (∀ action ∈ later, action.resumes = false) ∧
      (start.afterAll earlier).store.run
        (Snapshot.capture start.tracked.symbol start.tracked.inst) = (.ok snapshot, captured) ∧
      (start.afterAll actions).last = some snapshot ∧
      (start.afterAll actions).store = captured.afterAll
        (later.map (Action.event start.tracked.symbol start.tracked.inst)) := by
  induction actions using List.reverseRecOn with
  | nil =>
    have hnormal : (start.afterAll []).tracked.state = .normal := hstart
    rw [hnormal] at hstate
    cases hstate
  | append_singleton actions action ih =>
    obtain ⟨hinst, hsymbol⟩ := start.tracked_afterAll actions
    have hmoves := (start.afterAll actions).moves_after action
    rw [afterAll_concat] at hstate ⊢
    generalize (start.afterAll actions).after action = session at hmoves hstate ⊢
    cases hmoves with
    | captured hrun =>
      rw [hinst, hsymbol] at hrun
      exact ⟨actions, [], _, _, rfl, by simp, hrun, rfl, rfl⟩
    | skipped => cases hstate
    | acted hresumes =>
      obtain ⟨earlier, later, snapshot, captured, rfl, hlater, hrun, hlast, hstore⟩ := ih hstate
      refine ⟨earlier, later ++ [action], snapshot, captured, by simp, ?_, hrun, hlast, ?_⟩
      · intro other hother
        rcases List.mem_append.1 hother with hother | hother
        · exact hlater other hother
        · rw [List.mem_singleton.1 hother]
          exact hresumes hstate
      · rw [hinst, hsymbol, hstore, List.map_append]
        exact (captured.afterAll_concat _ _).symm

end Session

/-- What it means that an instance is taken for captured. The last thing that was done to it by way of
tracking is that it was captured: it has not been resumed since. Capturing it now gives the same
snapshot again if and only if its state looks as it did then, which is up to the host. If it does, then
the resumption that would be skipped changes nothing. -/
theorem capture_again_iff [Host] {start : Session} {actions : List Session.Action}
    (hstart : start.tracked.state = .normal)
    (hstate : (start.afterAll actions).tracked.state = .captured) :
    ∃ earlier later snapshot captured, actions = earlier ++ .hibernate :: later ∧
      (∀ action ∈ later, action.resumes = false) ∧
      (start.afterAll earlier).store.run
        (Snapshot.capture start.tracked.symbol start.tracked.inst) = (.ok snapshot, captured) ∧
      (start.afterAll actions).last = some snapshot ∧
      (start.afterAll actions).store = captured.afterAll
        (later.map (Session.Action.event start.tracked.symbol start.tracked.inst)) ∧
      ∀ {selection symbol bytes sections original m},
        Prepared selection symbol bytes sections original m →
        (∀ e ∈ original.exports, Accessor.ofExportName? start.tracked.symbol e.name = none) →
        start.tracked.inst.Of m start.store → ∀ {now}, (start.afterAll actions).store = now →
        (now.run (Snapshot.capture start.tracked.symbol start.tracked.inst) = (.ok snapshot, now) ↔
          start.tracked.inst.Alike selection (original.seenUnder symbol start.tracked.symbol)
            captured now) ∧
        (start.tracked.inst.Alike selection (original.seenUnder symbol start.tracked.symbol)
            captured now → now.run (snapshot.restore start.tracked.inst) = (.ok (), now)) := by
  obtain ⟨earlier, later, snapshot, captured, hactions, hlater, hrun, hlast, hstore⟩ :=
    Session.exists_hibernate_of_captured hstart hstate
  refine ⟨earlier, later, snapshot, captured, hactions, hlater, hrun, hlast, hstore, ?_⟩
  intro selection symbol bytes sections original m h hnames hof now hnow
  obtain ⟨events, hevents⟩ := start.store_afterAll actions
  obtain ⟨before, hbefore⟩ := start.store_afterAll earlier
  have hexposes : start.tracked.inst.Exposes selection start.tracked.symbol
      (original.seenUnder symbol start.tracked.symbol) now := by
    rw [← hnow, hevents]
    exact h.exposes_under hnames (hof.extends (start.store.extends_afterAll events))
  have hexposed : start.tracked.inst.Exposes selection start.tracked.symbol
      (original.seenUnder symbol start.tracked.symbol) (start.afterAll earlier).store := by
    rw [hbefore]
    exact h.exposes_under hnames (hof.extends (start.store.extends_afterAll before))
  -- Nothing changes by capturing, so the snapshot describes the state that it leaves.
  obtain ⟨snapshot', hrun', hdescribes⟩ := hexposed.run_capture
  cases hrun.symm.trans hrun'
  refine ⟨hexposes.capture_iff_alike hdescribes, fun halike => ?_⟩
  exact hexposes.run_restore_back (hdescribes.of_alike halike)

/-- The host clears a slot of the table once the instance has been captured. -/
def clearedSlot : List Session.Action := [.hibernate, .host (.setSlot 0 0 none)]

theorem sample_clearedSlot : ∃ (declared : Declarations) (inst : Instance) (store : Store)
    (session : Session),
    Prepared .all "_" (Section.encodeModule sampleSections) sampleSections sampleDeclarations
      declared ∧
    inst.Of declared store ∧
    Session.afterAll { tracked := .ofInstance inst "_", store } clearedSlot = session ∧
    session.tracked.state = .captured ∧ session.last.map (·.table) = some [some 1] ∧
    (session.store.run (Snapshot.capture "_" inst)).1.toOption.map (·.table) = some [none] := by
  obtain ⟨declared, inst, store, hprepared, hof, hrun⟩ := exists_sample
    (p := fun inst store =>
      let session := Session.afterAll { tracked := .ofInstance inst "_", store } clearedSlot
      decide (session.tracked.state = .captured ∧ session.last.map (·.table) = some [some 1] ∧
        (session.store.run (Snapshot.capture "_" inst)).1.toOption.map (·.table) = some [none]))
    (by decide +kernel)
  exact ⟨declared, inst, store, _, hprepared, hof, rfl, of_decide_eq_true hrun⟩

/-- The instance is still taken for captured, but would not be captured as it was. -/
theorem captured_not_held : ∃ (declared : Declarations) (inst : Instance) (store : Store)
    (session : Session) (snapshot other : Snapshot),
    Prepared .all "_" (Section.encodeModule sampleSections) sampleSections sampleDeclarations
      declared ∧
    inst.Of declared store ∧
    Session.afterAll { tracked := .ofInstance inst "_", store } clearedSlot = session ∧
    session.tracked.state = .captured ∧ session.last = some snapshot ∧
    session.store.run (Snapshot.capture "_" inst) = (.ok other, session.store) ∧
    snapshot.table = [some 1] ∧ other.table = [none] := by
  obtain ⟨declared, inst, store, session, hprepared, hof, hsession, hstate, hlast, hnow⟩ :=
    sample_clearedSlot
  obtain ⟨events, hevents⟩ :=
    Session.store_afterAll { tracked := .ofInstance inst "_", store } clearedSlot
  rw [hsession] at hevents
  have hextends : store.Extends session.store := hevents ▸ store.extends_afterAll events
  obtain ⟨other, hrun, -⟩ := (hprepared.exposes (hof.extends hextends)).run_capture
  obtain ⟨snapshot, hsnapshot, htable⟩ := Option.map_eq_some_iff.1 hlast
  rw [hrun] at hnow
  exact ⟨declared, inst, store, session, snapshot, other, hprepared, hof, hsession, hstate,
    hsnapshot, hrun, htable, Option.some.inj hnow⟩

theorem capture_again_iff_clearedSlot : ∃ (declared : Declarations) (inst : Instance)
    (store : Store) (session : Session) (earlier later : List Session.Action)
    (snapshot : Snapshot) (captured : Store),
    Prepared .all "_" (Section.encodeModule sampleSections) sampleSections sampleDeclarations
      declared ∧
    (∀ e ∈ sampleDeclarations.exports, Accessor.ofExportName? "_" e.name = none) ∧
    inst.Of declared store ∧
    Session.afterAll { tracked := .ofInstance inst "_", store } clearedSlot = session ∧
    session.tracked.state = .captured ∧ clearedSlot = earlier ++ .hibernate :: later ∧
    (∀ action ∈ later, action.resumes = false) ∧ session.last = some snapshot ∧
    session.store = captured.afterAll (later.map (Session.Action.event "_" inst)) ∧
    (session.store.run (Snapshot.capture "_" inst) = (.ok snapshot, session.store) ↔
      inst.Alike .all (sampleDeclarations.seenUnder "_" "_") captured session.store) := by
  obtain ⟨declared, inst, store, session, hprepared, hof, rfl, hstate, -, -⟩ := sample_clearedSlot
  obtain ⟨earlier, later, snapshot, captured, hactions, hlater, -, hlast, hstore, hprepares⟩ :=
    capture_again_iff rfl hstate
  obtain ⟨hagain, -⟩ := hprepares hprepared hprepared.names hof rfl
  exact ⟨declared, inst, store, _, earlier, later, snapshot, captured, hprepared,
    hprepared.names, hof, rfl, hstate, hactions, hlater, hlast, hstore, hagain⟩

end WasmSnapshot
