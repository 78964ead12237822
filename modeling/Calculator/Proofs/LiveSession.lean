import Mathlib.Data.List.Forall2
import Calculator.Proofs.Reporting

namespace Calculator

/-!
Sessions whose reporters deliver while they are used. The session and the workers take their steps in any
order. A session that is dropped loses its observers one after the other, and each is waited for until its
worker has nothing left to hand over.
-/

def Observer.busy : Observer → Bool
  | .recorder _ => false
  | .reporter r => r.busy

def Observer.deliver : Observer → Observer
  | .recorder notices => .recorder notices
  | .reporter r => .reporter r.deliver

section Session

variable (session : Session) (number : Nat)

/-- Whether the worker of this observer has a record to hand over. -/
def Session.busy : Bool :=
  session.observers[number]?.any Observer.busy

def Session.handOver : Session :=
  { session with observers := session.observers.modify number Observer.deliver }

end Session

/-- A session with its workers. Once it is being dropped, `gone` counts the observers that are gone. -/
structure LiveSession where
  session : Session
  gone : Option Nat := none

/-- What happens to a session and its workers: something is done to the session, a worker hands a record
over, the session is dropped, and while it is the next observer leaves. -/
inductive LiveEvent
  | act (action : SessionAction)
  | handOver (number : Nat)
  | drop
  | leave

inductive LiveSession.Step : LiveSession → LiveEvent → LiveSession → Prop
  | act {session} (action) : Step ⟨session, none⟩ (.act action) ⟨session.after action, none⟩
  | handOver {session gone number} : session.busy number = true →
      Step ⟨session, gone⟩ (.handOver number) ⟨session.handOver number, gone⟩
  | drop {session} : Step ⟨session, none⟩ .drop ⟨session, some 0⟩
  | leave {session number} : number < session.observers.length → session.busy number = false →
      Step ⟨session, some number⟩ .leave ⟨session, some (number + 1)⟩

def LiveEvent.action? : LiveEvent → Option SessionAction
  | .act action => some action
  | .handOver _ | .drop | .leave => none

def LiveSession.answer? (live : LiveSession) (event : LiveEvent) : Option (Except Failure Float) :=
  event.action?.bind live.session.answer?

/-- Steps in any order, with what the submissions among them give back. -/
inductive LiveSession.Run (start : LiveSession) :
    List LiveEvent → List (Except Failure Float) → LiveSession → Prop
  | start : Run start [] [] start
  | next {events answers live event later} : Run start events answers live → live.Step event later →
      Run start (events ++ [event]) (answers ++ (live.answer? event).toList) later

/-- What was done to the session itself. -/
def actionsOf (events : List LiveEvent) : List SessionAction :=
  events.filterMap LiveEvent.action?

/-- The observer of this number is gone. -/
def LiveSession.Left (live : LiveSession) (number : Nat) : Prop :=
  ∃ gone, live.gone = some gone ∧ number < gone

/-- All observers are gone. -/
def LiveSession.Ended (live : LiveSession) : Prop :=
  live.gone = some live.session.observers.length

/-! ### Observers -/

/-- An observer beside what it was when it subscribed and the actions since then. -/
structure Follows (subscription : Observer × List SessionAction) (observer : Observer) : Prop where
  recorder : ∀ got, subscription.1 = .recorder got → observer = .recorder (got ++ notices subscription.2)
  reporter : ∀ collector ip, subscription.1 = .reporter { collector := collector, ip := ip } →
    ∃ r : Reporter, observer = .reporter r ∧ r.Serves collector ip (recordsOf ip subscription.2)

def SessionAction.observer? : SessionAction → Option Observer
  | .subscribe observer => some observer
  | .submit .. | .clear => none

theorem Session.after_observers (session : Session) (action : SessionAction) :
    (session.after action).observers =
      session.observers.map (action.notice?.toList.foldl Observer.notify) ++ action.observer?.toList := by
  cases action with
  | submit description expression => exact (List.append_nil _).symm
  | subscribe observer => exact congrArg (· ++ [observer]) (List.map_id _).symm
  | clear => exact ((List.append_nil _).trans (List.map_id _)).symm

theorem subscriptions_concat (actions : List SessionAction) (action : SessionAction) :
    subscriptions (actions ++ [action]) =
      (subscriptions actions).map (fun subscription => (subscription.1, subscription.2 ++ [action])) ++
        action.observer?.toList.map (·, []) := by
  induction actions with
  | nil =>
    cases action with
    | submit | subscribe | clear => rfl
  | cons first rest ih =>
    cases first with
    | submit | clear => exact ih
    | subscribe observer => exact congrArg ((observer, rest ++ [action]) :: ·) ih

theorem recordsOf_concat (ip : String) (actions : List SessionAction) (action : SessionAction) :
    recordsOf ip (actions ++ [action]) = recordsOf ip actions ++
    (action.notice?.bind (Notice.record? ip)).toList := by
  rw [recordsOf, notices_concat, List.filterMap_append, recordsOf]
  refine congrArg (_ ++ ·) ?_
  cases action.notice? with
  | none => rfl
  | some notice =>
    cases reported : notice.record? ip with
    | none | some => simp [reported]

theorem Follows.start (observer : Observer) : Follows (observer, []) observer where
  recorder := by
    rintro got rfl
    rw [notices, List.filterMap_nil, List.append_nil]
  reporter := by
    rintro collector ip rfl
    exact ⟨_, rfl, .start⟩

theorem Follows.act {observer now : Observer} {later : List SessionAction}
    (follows : Follows (observer, later) now)
    (action : SessionAction) :
    Follows (observer, later ++ [action]) (action.notice?.toList.foldl Observer.notify now) where
  recorder := by
    intro got same
    rw [follows.recorder got same, notices_concat, foldl_recorder, List.append_assoc]
  reporter := by
    intro collector ip same
    obtain ⟨r, rfl, serves⟩ := follows.reporter collector ip same
    rw [recordsOf_concat]
    cases action.notice? with
    | none =>
      rw [Option.bind_none, Option.toList_none, Option.toList_none, List.append_nil]
      exact ⟨r, rfl, serves⟩
    | some notice => exact ⟨r.notify notice, rfl, serves.notify notice⟩

theorem Follows.deliver {subscription : Observer × List SessionAction} {observer : Observer}
    (follows : Follows subscription observer) : Follows subscription observer.deliver where
  recorder := by
    intro got same
    rw [follows.recorder got same]
    rfl
  reporter := by
    intro collector ip same
    obtain ⟨r, rfl, serves⟩ := follows.reporter collector ip same
    exact ⟨r.deliver, rfl, serves.deliver⟩

theorem forall₂_modify {α β : Type} {related : α → β → Prop} {f : β → β}
    (kept : ∀ a b, related a b → related a (f b)) {xs : List α} {ys : List β}
    (all : List.Forall₂ related xs ys) (number : Nat) :
    List.Forall₂ related xs (ys.modify number f) := by
  induction all generalizing number with
  | nil => rw [List.modify_nil]; exact .nil
  | cons first rest ih =>
    cases number with
    | zero => exact .cons (kept _ _ first) rest
    | succ number => exact .cons first (ih number)

theorem forall₂_getElem? {α β : Type} {related : α → β → Prop} {xs : List α} {ys : List β}
    (all : List.Forall₂ related xs ys) {number : Nat} {x : α} (there : xs[number]? = some x) :
    ∃ y, ys[number]? = some y ∧ related x y := by
  induction all generalizing number with
  | nil => cases there
  | @cons a b _ _ first _ ih =>
    cases number with
    | zero =>
      cases there
      exact ⟨b, rfl, first⟩
    | succ number => exact ih there

theorem follows_after {session : Session} {actions : List SessionAction}
    (all : List.Forall₂ Follows (subscriptions actions) session.observers) (action : SessionAction) :
    List.Forall₂ Follows (subscriptions (actions ++ [action])) (session.after action).observers := by
  rw [subscriptions_concat, session.after_observers]
  refine List.rel_append ?_ ?_
  · rw [List.forall₂_map_left_iff, List.forall₂_map_right_iff]
    exact all.imp fun subscription observer follows => follows.act action
  · cases action.observer? with
    | none => exact .nil
    | some observer => exact .cons (.start observer) .nil

/-! ### Steps -/

theorem actionsOf_concat (events : List LiveEvent) (event : LiveEvent) :
    actionsOf (events ++ [event]) = actionsOf events ++ event.action?.toList := by
  rw [actionsOf, List.filterMap_append]
  cases event with
  | act | handOver | drop | leave => rfl

theorem actionsOf_silent {event : LiveEvent} (events : List LiveEvent) (silent : event.action? = none) :
    actionsOf (events ++ [event]) = actionsOf events := by
  rw [actionsOf_concat, silent, Option.toList_none, List.append_nil]

section Run

variable {start live : LiveSession} {events : List LiveEvent} {answers : List (Except Failure Float)}

theorem LiveSession.Run.nextSilent {event : LiveEvent} {later : LiveSession}
    (run : LiveSession.Run start events answers live) (step : live.Step event later)
    (silent : event.action? = none) : LiveSession.Run start (events ++ [event]) answers later := by
  have next := run.next step
  rwa [LiveSession.answer?, silent, Option.bind_none, Option.toList_none, List.append_nil] at next

theorem LiveSession.Run.verdicts (run : LiveSession.Run start events answers live) :
    answers = (actionsOf events).filterMap SessionAction.verdict? := by
  induction run with
  | start => rfl
  | @next events answers live event later _ _ ih =>
    rw [actionsOf_concat, List.filterMap_append, ← ih]
    cases event with
    | handOver | drop | leave => rfl
    | act action =>
      cases action with
      | submit | subscribe | clear => rfl

theorem LiveSession.Run.history (run : LiveSession.Run start events answers live) :
    live.session.history = (start.session.run (actionsOf events)).history ∧
      live.session.limit = start.session.limit := by
  induction run with
  | start => exact ⟨rfl, rfl⟩
  | @next events answers live event later _ step ih =>
    obtain ⟨history, limit⟩ := ih
    cases step with
    | handOver | drop | leave =>
      rw [actionsOf_silent _ rfl]
      exact ⟨history, limit⟩
    | @act session action =>
      rw [actionsOf_concat, LiveEvent.action?, Option.toList_some, run_concat]
      refine ⟨?_, (session.after_limit action).trans limit⟩
      cases action with
      | subscribe => exact history
      | clear => rfl
      | submit description expression =>
        change session.history = _ at history
        change session.limit = _ at limit
        simp only [Session.after, Session.submit, limit, history, start.session.run_limit]

theorem LiveSession.Run.follows (run : LiveSession.Run start events answers live)
    (empty : start.session.observers = []) :
    List.Forall₂ Follows (subscriptions (actionsOf events)) live.session.observers := by
  induction run with
  | start =>
    rw [empty]
    exact .nil
  | @next events answers live event later _ step ih =>
    cases step with
    | act action =>
      rw [actionsOf_concat]
      exact follows_after ih action
    | drop | leave =>
      rw [actionsOf_silent _ rfl]
      exact ih
    | @handOver session gone number =>
      rw [actionsOf_silent _ rfl]
      exact forall₂_modify (fun _ _ follows => follows.deliver) ih number

/-! ### The end of a session -/

theorem Session.busy_iff {session : Session} {number : Nat} : session.busy number = true ↔
    ∃ r : Reporter, session.observers[number]? = some (.reporter r) ∧ r.busy = true := by
  rw [Session.busy]
  cases session.observers[number]? with
  | none => simp
  | some observer =>
    cases observer with
    | recorder got => simp [Observer.busy]
    | reporter r => simp [Observer.busy]

/-- While a session is dropped, the observers that are gone have nothing left to do. -/
def LiveSession.Waited (live : LiveSession) : Prop :=
  ∀ number, live.gone = some number → number ≤ live.session.observers.length ∧
    ∀ observer ∈ live.session.observers.take number, observer.busy = false

theorem LiveSession.Step.waited {event : LiveEvent} {later : LiveSession} (step : live.Step event later)
    (waited : live.Waited) : later.Waited := by
  intro number gone
  cases step with
  | act => cases gone
  | drop =>
    cases gone
    exact ⟨Nat.zero_le _, fun observer member => nomatch member⟩
  | @handOver session _ busy working =>
    obtain ⟨few, idle⟩ := waited number gone
    refine ⟨(List.length_modify ..).symm ▸ few, ?_⟩
    change ∀ observer ∈ (session.observers.modify busy Observer.deliver).take number, observer.busy = false
    have left : (session.observers.take number).length ≤ busy := by
      by_contra early
      obtain ⟨r, there, works⟩ := Session.busy_iff.mp working
      have first : busy < number := by
        rw [List.length_take] at early
        omega
      rw [← List.getElem?_take_of_lt first] at there
      have rests := idle _ (List.mem_of_getElem? there)
      exact Bool.false_ne_true (rests.symm.trans works)
    rw [List.take_modify, List.modify_eq_self left]
    exact idle
  | @leave session last there rests =>
    cases gone
    obtain ⟨_, idle⟩ := waited last rfl
    refine ⟨there, fun observer member => ?_⟩
    rw [List.take_add_one] at member
    rcases List.mem_append.mp member with earlier | here
    · exact idle observer earlier
    · rw [Session.busy, Option.mem_toList.mp here] at rests
      exact rests

theorem LiveSession.Run.waited (run : LiveSession.Run start events answers live) (waited : start.Waited) :
    live.Waited := by
  induction run with
  | start => exact waited
  | next _ step ih => exact step.waited ih

/-- How many records wait for the worker of an observer. -/
def Session.waiting (session : Session) (number : Nat) : Nat :=
  match session.observers[number]? with
  | some (.reporter r) => r.queue.length
  | some (.recorder _) | none => 0

theorem Session.waiting_handOver {session : Session} {number : Nat} (busy : session.busy number = true) :
    (session.handOver number).waiting number < session.waiting number := by
  obtain ⟨r, there, works⟩ := Session.busy_iff.mp busy
  have moved : (session.handOver number).observers[number]? = some (.reporter r.deliver) := by
    rw [Session.handOver, List.getElem?_modify, there]
    exact congrArg some (if_pos rfl)
  have shorter := Reporter.deliver_shorter works
  simp only [Session.waiting, moved, there]
  omega

/-- A worker comes to its end, whatever the others do. -/
theorem LiveSession.Run.drain (run : LiveSession.Run start events answers live) (number : Nat) :
    ∃ more session, LiveSession.Run start (events ++ more) answers ⟨session, live.gone⟩ ∧ actionsOf more = [] ∧
      session.observers.length = live.session.observers.length ∧ session.busy number = false := by
  generalize left : live.session.waiting number = count
  induction count using Nat.strongRecOn generalizing events live with
  | ind count ih =>
    cases busy : live.session.busy number with
    | false => exact ⟨[], live.session, (List.append_nil _).symm ▸ run, rfl, rfl, busy⟩
    | true =>
      have fewer := Session.waiting_handOver busy
      have next := run.nextSilent (.handOver busy) rfl
      obtain ⟨more, session, ran, silent, length, rests⟩ := ih _ (left ▸ fewer) next rfl
      refine ⟨.handOver number :: more, session, ?_, silent, length.trans (List.length_modify ..), rests⟩
      rwa [List.append_assoc] at ran

/-- A drop comes to its end. -/
theorem LiveSession.Run.ends {gone left : Nat} (run : LiveSession.Run start events answers live)
    (dropped : live.gone = some gone) (count : gone + left = live.session.observers.length) :
    ∃ more later, LiveSession.Run start (events ++ more) answers later ∧ later.Ended ∧ actionsOf more = [] := by
  induction left generalizing events live gone with
  | zero => exact ⟨[], live, (List.append_nil _).symm ▸ run, dropped.trans (congrArg some count), rfl⟩
  | succ left ih =>
    obtain ⟨more, session, drained, silent, length, rests⟩ := run.drain gone
    rw [dropped] at drained
    have there : gone < session.observers.length := by omega
    have next := drained.nextSilent (.leave there rests) rfl
    have rest : gone + 1 + left = session.observers.length := by omega
    obtain ⟨rest, later, ran, ended, quiet⟩ := ih next rfl rest
    refine ⟨more ++ .leave :: rest, later, ?_, ended, ?_⟩
    · simpa only [List.append_assoc, List.singleton_append] using ran
    · rw [actionsOf, List.filterMap_append, ← actionsOf, silent]
      exact quiet

end Run

/-! ### A drop ends like a session that is closed at once -/

theorem Observer.deliver_close (observer : Observer) : observer.deliver.close = observer.close := by
  cases observer with
  | recorder => rfl
  | reporter r => exact congrArg Observer.reporter r.deliver_close

theorem Observer.close_idle {observer : Observer} (idle : observer.busy = false) :
    observer.close = observer := by
  cases observer with
  | recorder => rfl
  | reporter r => exact congrArg Observer.reporter (Reporter.close_idle idle)

theorem map_modify {α β : Type} {f : α → α} {g : α → β} (same : ∀ a, g (f a) = g a) (items : List α)
    (number : Nat) : (items.modify number f).map g = items.map g := by
  induction items generalizing number with
  | nil => rw [List.modify_nil]
  | cons first rest ih =>
    cases number with
    | zero => exact congrArg (· :: rest.map g) (same first)
    | succ number => exact congrArg (g first :: ·) (ih number)

/-- Whatever the workers do while a session is dropped, it ends as if each had been waited for at once. -/
theorem drop_eq_close {session : Session} {events : List LiveEvent} {answers : List (Except Failure Float)}
    {live : LiveSession} (run : LiveSession.Run ⟨session, some 0⟩ events answers live) (ended : live.Ended) :
    live.session = session.close := by
  have closes : live.session.close = session.close ∧ live.gone.isSome = true := by
    clear ended
    induction run with
    | start => exact ⟨rfl, rfl⟩
    | next _ step ih =>
      obtain ⟨closes, dropped⟩ := ih
      cases step with
      | act | drop => cases dropped
      | leave => exact ⟨closes, rfl⟩
      | @handOver session _ number =>
        refine ⟨Eq.trans ?_ closes, dropped⟩
        simp only [Session.handOver, Session.close, map_modify Observer.deliver_close]
  have none : (⟨session, some 0⟩ : LiveSession).Waited := by
    rintro number ⟨⟩
    exact ⟨Nat.zero_le _, fun observer member => nomatch member⟩
  obtain ⟨_, idle⟩ := run.waited none _ ended
  rw [List.take_length] at idle
  have each : ∀ observer ∈ live.session.observers, observer.close = observer := fun observer member =>
    Observer.close_idle (idle observer member)
  have still : live.session.observers.map Observer.close = live.session.observers :=
    (List.map_congr_left each).trans (List.map_id _)
  rw [← closes.1, Session.close, still]

end Calculator
