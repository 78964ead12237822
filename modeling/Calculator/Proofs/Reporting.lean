import Mathlib.Data.List.Infix
import Calculator.Proofs.SessionRun

namespace Calculator

/-!
One reporter by itself. Between a notice and the collector a record waits, and the worker hands over one
record at a time.
-/

/-- What is reported of a submission: its entry and its result, if that is a success. -/
def Notice.record? (ip : String) (notice : Notice) : Option Record :=
  match notice.verdict with
  | .ok result => some ⟨notice.entry.description, notice.entry.expression, result, ip⟩
  | .error _ => none

/-- The records of the successes among the actions, in their order. -/
def recordsOf (ip : String) (actions : List SessionAction) : List Record :=
  (notices actions).filterMap (Notice.record? ip)

/-- The collector stands all of the records. -/
def Calm (collector : Collector) (records : List Record) : Prop :=
  ∀ done record, done ++ [record] <+: records → collector done record ≠ .crashed

/-- The record that comes after `n` others is the first that the collector crashes at. There need not
be as many. -/
def CrashesAfter (collector : Collector) (records : List Record) (n : Nat) : Prop :=
  ∀ done record, done ++ [record] <+: records → done.length ≤ n →
    (collector done record = .crashed ↔ done.length = n)

/-- Whether the worker has a record to hand over. -/
def Reporter.busy (reporter : Reporter) : Bool :=
  reporter.running && !reporter.queue.isEmpty

/-- A reporter with records that are due: its worker has handed over some of them and the others wait, or
the collector crashed at the one that was handed over last. -/
inductive Reporter.Serves (collector : Collector) (ip : String) (due : List Record) : Reporter → Prop
  | running {handed queue log} : handed ++ queue = due → Calm collector handed →
      Serves collector ip due ⟨collector, ip, queue, handed, true, log⟩
  | crashed {done record queue log} : done ++ [record] <+: due → Calm collector done →
      collector done record = .crashed →
      Serves collector ip due ⟨collector, ip, queue, done ++ [record], false, log⟩

/-- What a collector was handed of the records that are due. `ended` says that the reporter is gone. -/
structure Reporter.Delivered (collector : Collector) (due : List Record) (ended : Prop)
    (reporter : Reporter) : Prop where
  ordered : reporter.handed <+: due
  waiting : reporter.running = true → reporter.handed ++ reporter.queue = due
  all : ended → Calm collector due → reporter.handed = due
  crash : ∀ n, CrashesAfter collector due n →
    reporter.handed <+: due.take (n + 1) ∧ (ended → reporter.handed = due.take (n + 1))

theorem Calm.nil {collector : Collector} : Calm collector [] := by
  intro done record within
  have short := within.length_le
  rw [List.length_append] at short
  exact absurd short (Nat.not_succ_le_zero _)

theorem Calm.concat {collector : Collector} {done : List Record} {record : Record} (calm : Calm collector done)
    (stands : collector done record ≠ .crashed) : Calm collector (done ++ [record]) := by
  intro before last within
  rcases List.prefix_concat_iff.mp within with same | earlier
  · obtain ⟨rfl, rfl⟩ := List.append_singleton_inj.mp same
    exact stands
  · exact calm before last earlier

theorem Reporter.Serves.start {collector : Collector} {ip : String} :
    Reporter.Serves collector ip [] { collector := collector, ip := ip } :=
  .running rfl .nil

/-- What a hand-over does, whatever the collector makes of the record. -/
theorem Reporter.deliver_next (collector : Collector) (ip : String) (record : Record)
    (queue handed : List Record)
    (log : List LogLine) :
    ∃ later, Reporter.deliver ⟨collector, ip, record :: queue, handed, true, log⟩ =
      ⟨collector, ip, queue, handed ++ [record], decide (collector handed record ≠ .crashed), later⟩ := by
  simp only [Reporter.deliver]
  cases collector handed record with
  | accepted | refused | crashed => exact ⟨_, rfl⟩

theorem Reporter.deliver_shorter {reporter : Reporter} (busy : reporter.busy = true) :
    reporter.deliver.queue.length < reporter.queue.length := by
  obtain ⟨collector, ip, queue, handed, running, log⟩ := reporter
  obtain ⟨alive, waits⟩ := (Bool.and_eq_true _ _).mp busy
  cases alive
  cases queue with
  | nil => cases waits
  | cons record rest =>
    obtain ⟨later, next⟩ := Reporter.deliver_next collector ip record rest handed log
    rw [next]
    exact Nat.lt_succ_self _

/-- A worker with nothing to do changes nothing. -/
theorem Reporter.deliver_idle {reporter : Reporter} (idle : reporter.busy = false) :
    reporter.deliver = reporter := by
  obtain ⟨collector, ip, queue, handed, running, log⟩ := reporter
  cases running with
  | false => rfl
  | true =>
    cases queue with
    | nil => rfl
    | cons record rest => cases idle

theorem Reporter.close_idle {reporter : Reporter} (idle : reporter.busy = false) :
    reporter.close = reporter := by
  rw [Reporter.close]
  generalize reporter.queue = queue
  induction queue with
  | nil => rfl
  | cons record rest ih => rw [List.foldl_cons, Reporter.deliver_idle idle, ih]

theorem Reporter.deliver_close (reporter : Reporter) : reporter.deliver.close = reporter.close := by
  cases busy : reporter.busy with
  | false => rw [Reporter.deliver_idle busy]
  | true =>
    obtain ⟨collector, ip, queue, handed, running, log⟩ := reporter
    obtain ⟨alive, waits⟩ := (Bool.and_eq_true _ _).mp busy
    cases alive
    cases queue with
    | nil => cases waits
    | cons record rest =>
      obtain ⟨later, next⟩ := Reporter.deliver_next collector ip record rest handed log
      rw [Reporter.close, Reporter.close, List.foldl_cons, next]

section Serves

variable {collector : Collector} {ip : String} {due : List Record} {reporter : Reporter}

theorem Reporter.Serves.notify (serves : reporter.Serves collector ip due) (notice : Notice) :
    (reporter.notify notice).Serves collector ip (due ++ (notice.record? ip).toList) := by
  rw [Reporter.notify, Notice.record?]
  cases notice.verdict with
  | error failure =>
    rw [Option.toList_none, List.append_nil]
    cases serves with
    | running parts calm => exact .running parts calm
    | crashed within calm crash => exact .crashed within calm crash
  | ok result =>
    rw [Option.toList_some]
    cases serves with
    | @running handed queue log parts calm =>
      have more : ∀ record, handed ++ (queue ++ [record]) = due ++ [record] := by
        intro record
        rw [← List.append_assoc, parts]
      exact .running (more _) calm
    | crashed within calm crash => exact .crashed (within.trans (List.prefix_append _ _)) calm crash

theorem Reporter.Serves.deliver (serves : reporter.Serves collector ip due) :
    reporter.deliver.Serves collector ip due := by
  cases serves with
  | crashed within calm crash => exact .crashed within calm crash
  | @running handed queue log parts calm =>
    cases queue with
    | nil => exact .running parts calm
    | cons record rest =>
      have moved : (handed ++ [record]) ++ rest = due := by rw [List.append_assoc, List.singleton_append, parts]
      obtain ⟨later, next⟩ := Reporter.deliver_next collector ip record rest handed log
      rw [next]
      by_cases crash : collector handed record = .crashed
      · have within : handed ++ [record] <+: due := ⟨rest, moved⟩
        rw [decide_eq_false (not_not.mpr crash)]
        exact .crashed within calm crash
      · rw [decide_eq_true crash]
        exact .running moved (calm.concat crash)

theorem Reporter.Serves.collects (serves : reporter.Serves collector ip due) :
    reporter.collector = collector := by
  cases serves with
  | running | crashed => rfl

theorem Calm.crashesAfter_ge {collector : Collector} {due handed : List Record} {n : Nat}
    (calm : Calm collector handed)
    (within : handed <+: due) (crash : CrashesAfter collector due n) : handed.length ≤ n := by
  by_contra more
  have early : n < handed.length := Nat.lt_of_not_le more
  have first : handed.take n ++ [handed[n]] <+: handed := by
    rw [List.take_append_getElem early]
    exact List.take_prefix _ _
  have length : (handed.take n).length = n := List.length_take_of_le early.le
  exact calm _ _ first ((crash _ _ (first.trans within) length.le).mpr length)

/-- When nothing is left to do, the collector was handed all, or what came until it crashed. -/
theorem Reporter.Serves.delivered {ended : Prop} (serves : reporter.Serves collector ip due)
    (idle : ended → reporter.busy = false) : reporter.Delivered collector due ended := by
  cases serves with
  | @running handed queue log parts calm =>
    have within : handed <+: due := ⟨queue, parts⟩
    have whole : ended → handed = due := by
      intro gone
      have empty : queue = [] := by simpa [Reporter.busy] using idle gone
      rw [← parts, empty, List.append_nil]
    refine ⟨within, fun _ => parts, fun gone _ => whole gone, fun n crash => ?_⟩
    have few := calm.crashesAfter_ge within crash
    have kept : handed <+: due.take (n + 1) :=
      List.prefix_take_iff.mpr ⟨within, by omega⟩
    refine ⟨kept, fun gone => ?_⟩
    rw [← whole gone, List.take_of_length_le (by omega)]
  | @crashed done record queue log within calm crash =>
    have stops : ended → Calm collector due → done ++ [record] = due := fun _ calm => absurd crash (calm _ _ within)
    refine ⟨within, (fun running => nomatch running), stops, fun n first => ?_⟩
    have few := calm.crashesAfter_ge ((List.prefix_append _ _).trans within) first
    have last : done.length = n := (first _ _ within few).mp crash
    have same : done ++ [record] = due.take (n + 1) := by
      rw [List.prefix_iff_eq_take.mp within, List.length_append, List.length_singleton, last]
    exact ⟨same ▸ List.prefix_rfl, fun _ => same⟩

end Serves

end Calculator
