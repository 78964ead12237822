import Mathlib.Data.List.InsertIdx
import Calculator.Proofs.LiveSession

namespace Calculator

/-!
A session makes no difference between its observers: whichever is left out, the others, the history and the
answers stay as they are.
-/

/-- The session without this observer. -/
def Session.without (session : Session) (number : Nat) : Session :=
  { session with observers := session.observers.eraseIdx number }

def LiveSession.without (live : LiveSession) (number : Nat) : LiveSession :=
  ⟨live.session.without number, live.gone.map fun gone => if number < gone then gone - 1 else gone⟩

/-- The actions without the subscription of this number. -/
def withoutSubscription : Nat → List SessionAction → List SessionAction
  | _, [] => []
  | 0, .subscribe _ :: rest => rest
  | number + 1, .subscribe observer :: rest => .subscribe observer :: withoutSubscription number rest
  | number, action :: rest => action :: withoutSubscription number rest

section Without

variable {session : Session} {number : Nat}

theorem after_without {action : SessionAction}
    (other : action.observer?.isSome = true → number ≠ session.observers.length) :
    (session.after action).without number = (session.without number).after action := by
  cases action with
  | clear => rfl
  | submit description expression =>
    simp only [Session.after, Session.submit, Session.without, List.eraseIdx_map]
  | subscribe observer =>
    have apart := other rfl
    simp only [Session.after, Session.subscribe, Session.without, Session.mk.injEq, true_and]
    by_cases early : number < session.observers.length
    · exact List.eraseIdx_append_of_lt_length early _
    · have late : session.observers.length < number := by omega
      have beyond : [observer].length ≤ number - session.observers.length := by
        rw [List.length_singleton]
        omega
      rw [List.eraseIdx_append_of_length_le late.le, List.eraseIdx_of_length_le beyond,
        List.eraseIdx_of_length_le late.le]

theorem subscribe_without (session : Session) (observer : Observer) :
    (session.subscribe observer).without session.observers.length = session.without session.observers.length := by
  simp only [Session.subscribe, Session.without, Session.mk.injEq, true_and]
  rw [List.eraseIdx_append_of_length_le le_rfl, List.eraseIdx_of_length_le le_rfl, Nat.sub_self]
  exact List.append_nil _

theorem withoutSubscription_concat {actions : List SessionAction} {action : SessionAction}
    (other : action.observer?.isSome = true → number ≠ (subscriptions actions).length) :
    withoutSubscription number (actions ++ [action]) = withoutSubscription number actions ++ [action] := by
  induction actions generalizing number with
  | nil =>
    cases action with
    | submit | clear => cases number <;> rfl
    | subscribe observer =>
      cases number with
      | zero => exact absurd rfl (other rfl)
      | succ number => rfl
  | cons first rest ih =>
    cases first with
    | submit | clear =>
      cases number with
      | zero | succ number => exact congrArg (_ :: ·) (ih other)
    | subscribe observer =>
      cases number with
      | zero => rfl
      | succ number => exact congrArg (_ :: ·) (ih fun subscribes same => other subscribes (congrArg (· + 1) same))

theorem withoutSubscription_append (actions more : List SessionAction) :
    withoutSubscription (subscriptions actions).length (actions ++ more) =
      actions ++ withoutSubscription 0 more := by
  induction actions with
  | nil => rfl
  | cons first rest ih =>
    cases first with
    | subscribe observer => exact congrArg (_ :: ·) ih
    | submit | clear =>
      change withoutSubscription (subscriptions rest).length (_ :: (rest ++ more)) = _
      cases count : (subscriptions rest).length with
      | zero | succ =>
        rw [count] at ih
        exact congrArg (_ :: ·) ih

theorem handOver_without_lt {busy : Nat} (before : busy < number) :
    (session.handOver busy).without number = (session.without number).handOver busy ∧
      (session.without number).busy busy = session.busy busy := by
  simp only [Session.handOver, Session.without, Session.busy, Session.mk.injEq, true_and]
  exact ⟨List.eraseIdx_modify_of_gt _ _ _ _ before, congrArg (Option.any _) (List.getElem?_eraseIdx_of_lt before)⟩

theorem handOver_without_gt {busy : Nat} (after : number < busy) :
    (session.handOver busy).without number = (session.without number).handOver (busy - 1) ∧
      (session.without number).busy (busy - 1) = session.busy busy := by
  have back : busy - 1 + 1 = busy := by omega
  have place : number ≤ busy - 1 := by omega
  simp only [Session.handOver, Session.without, Session.busy, Session.mk.injEq, true_and]
  refine ⟨List.eraseIdx_modify_of_lt _ _ _ _ after, congrArg (Option.any _) ?_⟩
  rw [List.getElem?_eraseIdx_of_ge place, back]

theorem handOver_without_self : (session.handOver number).without number = session.without number := by
  simp only [Session.handOver, Session.without, List.eraseIdx_modify_of_eq]

end Without

/-- A step of something else than the observer that is left out is a step without it. -/
theorem LiveSession.Step.without {live later : LiveSession} {event : LiveEvent} (step : live.Step event later)
    (number : Nat)
    (other : ∀ action, event = .act action → action.observer?.isSome = true →
      number ≠ live.session.observers.length) :
    live.without number = later.without number ∧ event.action? = none ∨
      ∃ same, (live.without number).Step same (later.without number) ∧ same.action? = event.action? := by
  cases step with
  | drop => exact .inr ⟨.drop, .drop, rfl⟩
  | @act session action =>
    refine .inr ⟨.act action, ?_, rfl⟩
    rw [LiveSession.without, LiveSession.without, after_without (other action rfl)]
    exact .act action
  | @handOver session gone busy works =>
    rcases Nat.lt_trichotomy busy number with before | rfl | after
    · obtain ⟨erased, there⟩ := @handOver_without_lt session number busy before
      refine .inr ⟨.handOver busy, ?_, rfl⟩
      rw [LiveSession.without, LiveSession.without, erased]
      exact .handOver (there.trans works)
    · exact .inl ⟨by rw [LiveSession.without, LiveSession.without, handOver_without_self], rfl⟩
    · obtain ⟨erased, there⟩ := @handOver_without_gt session number busy after
      refine .inr ⟨.handOver (busy - 1), ?_, rfl⟩
      rw [LiveSession.without, LiveSession.without, erased]
      exact .handOver (there.trans works)
  | @leave session last there rests =>
    rcases Nat.lt_trichotomy last number with before | rfl | after
    · have stays : ¬number < last := by omega
      have staysNext : ¬number < last + 1 := by omega
      have there' : last < (session.without number).observers.length := by
        rw [Session.without, List.length_eraseIdx]
        split <;> omega
      refine .inr ⟨.leave, ?_, rfl⟩
      simp only [LiveSession.without, Option.map_some, if_neg stays, if_neg staysNext]
      exact .leave there' ((handOver_without_lt before).2.trans rests)
    · refine .inl ⟨?_, rfl⟩
      simp only [LiveSession.without, Option.map_some, Nat.lt_irrefl, if_false, Nat.lt_succ_self, if_true,
        Nat.add_sub_cancel]
    · have moves : number < last + 1 := by omega
      have back : last - 1 + 1 = last := by omega
      have there' : last - 1 < (session.without number).observers.length := by
        rw [Session.without, List.length_eraseIdx]
        split <;> omega
      have left := @LiveSession.Step.leave _ _ there' ((handOver_without_gt after).2.trans rests)
      rw [back] at left
      refine .inr ⟨.leave, ?_, rfl⟩
      simp only [LiveSession.without, Option.map_some, if_pos after, if_pos moves, Nat.add_sub_cancel]
      exact left

theorem LiveSession.answer?_without {live : LiveSession} {event same : LiveEvent} (number : Nat)
    (action : same.action? = event.action?) : (live.without number).answer? same = live.answer? event := by
  rw [LiveSession.answer?, LiveSession.answer?, action]
  cases event.action? with
  | none => rfl
  | some action =>
    cases action with
    | submit | subscribe | clear => rfl

theorem LiveSession.Run.without {limit : Option Nat} {events : List LiveEvent}
    {answers : List (Except Failure Float)}
    {live : LiveSession} (run : LiveSession.Run ⟨{ limit := limit }, none⟩ events answers live) (number : Nat) :
    ∃ fewer, LiveSession.Run ⟨{ limit := limit }, none⟩ fewer answers (live.without number) ∧
      actionsOf fewer = withoutSubscription number (actionsOf events) := by
  induction run with
  | start => exact ⟨[], .start, rfl⟩
  | @next events answers live event later run step ih =>
    obtain ⟨fewer, ran, kept⟩ := ih
    have known : (subscriptions (actionsOf events)).length = live.session.observers.length :=
      (run.follows rfl).length_eq
    by_cases own : ∃ observer, event = .act (.subscribe observer) ∧ number = live.session.observers.length
    · obtain ⟨observer, rfl, rfl⟩ := own
      cases step with
      | @act session =>
        change (subscriptions (actionsOf events)).length = session.observers.length at known
        have same : (⟨session.subscribe observer, none⟩ : LiveSession).without session.observers.length =
            (⟨session, none⟩ : LiveSession).without session.observers.length := by
          rw [LiveSession.without, LiveSession.without, subscribe_without]
        have before := withoutSubscription_append (actionsOf events) []
        have after := withoutSubscription_append (actionsOf events) [.subscribe observer]
        rw [known, List.append_nil] at before
        rw [known] at after
        refine ⟨fewer, ?_, ?_⟩
        · rw [← same] at ran
          exact (List.append_nil answers).symm ▸ ran
        · rw [actionsOf_concat]
          exact kept.trans (before.trans after.symm)
    · have other : ∀ action, event = .act action → action.observer?.isSome = true →
          number ≠ live.session.observers.length := by
        rintro action rfl subscribes rfl
        cases action with
        | submit | clear => cases subscribes
        | subscribe observer => exact own ⟨observer, rfl, rfl⟩
      rcases step.without number other with ⟨same, silent⟩ | ⟨same, step, done⟩
      · refine ⟨fewer, ?_, ?_⟩
        · rw [LiveSession.answer?, silent, ← same]
          exact (List.append_nil answers).symm ▸ ran
        · rw [actionsOf_silent _ silent, kept]
      · have next := ran.next step
        rw [LiveSession.answer?_without number done] at next
        refine ⟨fewer ++ [same], next, ?_⟩
        rw [actionsOf_concat, actionsOf_concat, done, kept]
        cases event with
        | handOver | drop | leave =>
          rw [LiveEvent.action?, Option.toList_none, List.append_nil, List.append_nil]
        | act action =>
          refine (withoutSubscription_concat fun subscribes => ?_).symm
          rw [known]
          exact other action rfl subscribes

end Calculator
