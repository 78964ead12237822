import Calculator.Proofs.WithoutObserver

namespace Calculator

/-- What holds of a session after any steps of itself and of its workers. -/
structure DeliveryLaw (limit : Option Nat) (events : List LiveEvent) (answers : List (Except Failure Float))
    (live : LiveSession) : Prop where
  verdicts : answers = (actionsOf events).filterMap SessionAction.verdict?
  /-- Without a limit all entries since the history was last emptied are there. -/
  unlimited : limit = none → live.session.history = newestFirst (actionsOf events)
  /-- With a limit the newest of them are, as many as there is room for. -/
  limited : ∀ room, limit = some room → live.session.history = (newestFirst (actionsOf events)).take room
  recorders : ∀ (number : Nat) got later,
    (subscriptions (actionsOf events))[number]? = some (.recorder got, later) →
    live.session.observers[number]? = some (.recorder (got ++ notices later))
  reporters : ∀ (number : Nat) collector ip later,
    (subscriptions (actionsOf events))[number]? = some (.reporter { collector := collector, ip := ip }, later) →
    ∃ r : Reporter, live.session.observers[number]? = some (.reporter r) ∧ r.collector = collector ∧
      r.Delivered collector (recordsOf ip later) (live.Left number)
  /-- Without one of the observers all others, the history and the answers can be the same. -/
  without : ∀ number, ∃ fewer, LiveSession.Run ⟨{ limit := limit }, none⟩ fewer answers (live.without number) ∧
    actionsOf fewer = withoutSubscription number (actionsOf events)
  /-- A drop comes to its end. -/
  ends : live.gone ≠ none → ∃ more later,
    LiveSession.Run ⟨{ limit := limit }, none⟩ (events ++ more) answers later ∧ later.Ended ∧ actionsOf more = []

/-- Sessions answer, record and tell as if no record were delivered, in whatever order the workers take their
steps. What a collector is handed are the records of the successes since its reporter subscribed, in order:
all of them once the reporter is gone, or those until the collector crashed. -/
theorem delivery_law {limit : Option Nat} {events : List LiveEvent} {answers : List (Except Failure Float)}
    {live : LiveSession} (run : LiveSession.Run ⟨{ limit := limit }, none⟩ events answers live) :
    DeliveryLaw limit events answers live := by
  have follows := run.follows rfl
  have waited := run.waited fun number gone => nomatch gone
  have history := run.history.1
  rw [run_history _ rfl, notices_entries] at history
  obtain ⟨unlimited, limited⟩ := keepNewest_cases history
  refine ⟨run.verdicts, unlimited, limited, ?_, ?_, run.without, ?_⟩
  · intro number got later subscribed
    obtain ⟨observer, there, follows⟩ := forall₂_getElem? follows subscribed
    rw [there, follows.recorder got rfl]
  · intro number collector ip later subscribed
    obtain ⟨observer, there, follows⟩ := forall₂_getElem? follows subscribed
    obtain ⟨r, rfl, serves⟩ := follows.reporter collector ip rfl
    refine ⟨r, there, serves.collects, serves.delivered fun left => ?_⟩
    obtain ⟨gone, dropped, early⟩ := left
    obtain ⟨_, idle⟩ := waited gone dropped
    rw [← List.getElem?_take_of_lt early] at there
    exact idle _ (List.mem_of_getElem? there)
  · intro dropped
    cases gone : live.gone with
    | none => exact absurd gone dropped
    | some number =>
      obtain ⟨few, _⟩ := waited number gone
      exact run.ends gone (Nat.add_sub_cancel' few)

/-- One collector refuses whatever it is handed, the other crashes at its second record. -/
theorem delivery_refused_and_crashed :
    ∃ events answers live, LiveSession.Run ⟨{ limit := none }, none⟩ events answers live ∧ live.Ended ∧
      answers = [.ok 7, .error (.arithmetic .divisionByZero), .ok 8, .ok 9] ∧
      ∃ r s : Reporter, live.session.observers[0]? = some (.reporter r) ∧
        live.session.observers[1]? = some (.reporter s) ∧
        r.handed = [⟨"a", "7", 7, "::1"⟩, ⟨"c", "8", 8, "::1"⟩, ⟨"d", "9", 9, "::1"⟩] ∧
        s.handed = [⟨"a", "7", 7, "::2"⟩, ⟨"c", "8", 8, "::2"⟩] := by
  have refuses := LiveSession.Run.start.next (@LiveSession.Step.act { limit := none } (.subscribe (.reporter
    ⟨fun _ _ => .refused (.status 503), "::1", [], [], true, []⟩)))
  have crashes := refuses.next (.act (.subscribe (.reporter
    ⟨fun done _ => if done.length = 1 then .crashed else .accepted, "::2", [], [], true, []⟩)))
  have used :=
    ((crashes.next (.act (.submit "a" " 7 "))).next (.act (.submit "b" "1 / 0"))).next (.act (.submit "c" "8"))
  have working := used.next (@LiveSession.Step.handOver _ _ 1 (by decide +kernel))
  have dropped := (working.next (.act (.submit "d" "9"))).next .drop
  have crashed := dropped.next (@LiveSession.Step.handOver _ _ 1 (by decide +kernel))
  have first := crashed.next (@LiveSession.Step.handOver _ _ 0 (by decide +kernel))
  have second := first.next (@LiveSession.Step.handOver _ _ 0 (by decide +kernel))
  have third := second.next (@LiveSession.Step.handOver _ _ 0 (by decide +kernel))
  have left := third.next (.leave (by decide +kernel) (by decide +kernel))
  have ended := left.next (.leave (by decide +kernel) (by decide +kernel))
  have law := delivery_law ended
  refine ⟨_, _, _, ended, rfl, ?_, ?_⟩
  · decide +kernel
  · obtain ⟨r, there, _, given⟩ := law.reporters 0 _ "::1" _ rfl
    obtain ⟨s, other, _, stopped⟩ := law.reporters 1 _ "::2" _ rfl
    refine ⟨r, s, there, other, ?_, ?_⟩
    · refine (given.all ⟨2, rfl, by decide⟩ fun done record _ crash => nomatch crash).trans ?_
      decide +kernel
    · refine ((stopped.crash 1 fun done record _ _ => ?_).2 ⟨2, rfl, by decide⟩).trans ?_
      · by_cases second : done.length = 1
        · simp [second]
        · simp [second]
      · decide +kernel

end Calculator
