import Mathlib.Data.List.Induction
import Calculator.Session

namespace Calculator

/-- What can be done to a session. -/
inductive SessionAction
  | submit (description expression : String)
  | subscribe (observer : Observer)
  | clear

/-- A session after an action. -/
def Session.after (session : Session) : SessionAction → Session
  | .submit description expression => (session.submit description expression).2
  | .subscribe observer => session.subscribe observer
  | .clear => session.clear

/-- What an action gives back; only submissions do. -/
def Session.answer? (session : Session) : SessionAction → Option (Except Failure Float)
  | .submit description expression => some (session.submit description expression).1
  | .subscribe _ | .clear => none

/-- The calls that an action makes to the observers, each with the number of the observer: one to every
observer on a submission, the earliest subscriber first. -/
def Session.calls (session : Session) : SessionAction → List (Nat × Notice)
  | .submit description expression =>
    session.observers.zipIdx.map fun numbered => (numbered.2, .ofSubmission description expression)
  | .subscribe _ | .clear => []

section Run

variable (session : Session)

def Session.run (actions : List SessionAction) : Session :=
  actions.foldl Session.after session

def Session.answers (session : Session) : List SessionAction → List (Except Failure Float)
  | [] => []
  | action :: rest => (session.answer? action).toList ++ (session.after action).answers rest

def Session.allCalls (session : Session) : List SessionAction → List (Nat × Notice)
  | [] => []
  | action :: rest => session.calls action ++ (session.after action).allCalls rest

end Run

/-- The entry of a submission: with the result of a success, with the stage and the message of a failure. -/
def SessionAction.entry? : SessionAction → Option Entry
  | .submit description expression =>
    some {
      description := trim description
      expression := trim expression
      outcome := match evaluate (trim expression) with
        | .ok result => .success result
        | .error failure => .failure failure.stage failure.message }
  | .subscribe _ | .clear => none

/-- What a submission gives, whatever session it is made to. -/
def SessionAction.verdict? : SessionAction → Option (Except Failure Float)
  | .submit _ expression => some (evaluate (trim expression))
  | .subscribe _ | .clear => none

/-- What observers are told of an action. -/
def SessionAction.notice? : SessionAction → Option Notice
  | .submit description expression => some (.ofSubmission description expression)
  | .subscribe _ | .clear => none

def notices (actions : List SessionAction) : List Notice :=
  actions.filterMap SessionAction.notice?

def SessionAction.isClear : SessionAction → Bool
  | .clear => true
  | .submit .. | .subscribe _ => false

/-- The actions after the last one that emptied the history. -/
def sinceClear (actions : List SessionAction) : List SessionAction :=
  (actions.reverse.takeWhile (!·.isClear)).reverse

/-- The entries of the submissions since the history was last emptied, the newest first. -/
def newestFirst (actions : List SessionAction) : List Entry :=
  ((sinceClear actions).filterMap SessionAction.entry?).reverse

/-- The observers in the order of their subscriptions, each with the actions after its own. -/
def subscriptions : List SessionAction → List (Observer × List SessionAction)
  | [] => []
  | .subscribe observer :: rest => (observer, rest) :: subscriptions rest
  | .submit .. :: rest => subscriptions rest
  | .clear :: rest => subscriptions rest

/-- The calls of actions that meet so many observers: for each submission in turn one to every
subscriber so far, the earliest first. -/
def callOrder (known : Nat) : List SessionAction → List (Nat × Notice)
  | [] => []
  | .subscribe _ :: rest => callOrder (known + 1) rest
  | .clear :: rest => callOrder known rest
  | .submit description expression :: rest =>
    (List.range known).map (·, .ofSubmission description expression) ++ callOrder known rest

/-- What one observer gets to know. -/
def received (number : Nat) (calls : List (Nat × Notice)) : List Notice :=
  calls.filterMap fun call => if call.1 = number then some call.2 else none

theorem run_concat (session : Session) (actions : List SessionAction) (action : SessionAction) :
    session.run (actions ++ [action]) = (session.run actions).after action := by
  rw [Session.run, List.foldl_append]
  rfl

theorem Session.after_limit (session : Session) (action : SessionAction) :
    (session.after action).limit = session.limit := by
  cases action with
  | submit | subscribe | clear => rfl

theorem Session.run_limit (session : Session) (actions : List SessionAction) :
    (session.run actions).limit = session.limit := by
  induction actions generalizing session with
  | nil => rfl
  | cons action rest ih => exact (ih (session.after action)).trans (session.after_limit action)

/-- What was cut off before makes no difference to what is kept. -/
theorem keepNewest_cons (limit : Option Nat) (entry : Entry) (entries : List Entry) :
    keepNewest limit (entry :: keepNewest limit entries) = keepNewest limit (entry :: entries) := by
  cases limit with
  | none => rfl
  | some limit =>
    cases limit with
    | zero => rfl
    | succ rest => simp [keepNewest, List.take_take]

theorem notices_concat (actions : List SessionAction) (action : SessionAction) :
    notices (actions ++ [action]) = notices actions ++ action.notice?.toList := by
  rw [notices, List.filterMap_append]
  cases action with
  | submit | subscribe | clear => rfl

theorem sinceClear_concat (actions : List SessionAction) (action : SessionAction) :
    sinceClear (actions ++ [action]) = if action.isClear then [] else sinceClear actions ++ [action] := by
  rw [sinceClear, List.reverse_append, List.reverse_singleton, List.singleton_append, List.takeWhile_cons]
  cases action.isClear with
  | true => rfl
  | false => exact List.reverse_cons

theorem run_history (session : Session) (empty : session.history = []) (actions : List SessionAction) :
    (session.run actions).history =
      keepNewest session.limit ((notices (sinceClear actions)).map Notice.entry).reverse := by
  induction actions using List.reverseRecOn with
  | nil =>
    cases limit : session.limit with
    | none => exact empty
    | some => exact empty.trans List.take_nil.symm
  | append_singleton actions action ih =>
    rw [run_concat, sinceClear_concat]
    cases action with
    | clear =>
      cases session.limit with
      | none => rfl
      | some => exact List.take_nil.symm
    | subscribe observer =>
      change (session.run actions).history = _
      rw [ih, if_neg (by simp [SessionAction.isClear]), notices_concat]
      exact congrArg (fun told => keepNewest session.limit (told.map Notice.entry).reverse) (List.append_nil _).symm
    | submit description expression =>
      change keepNewest (session.run actions).limit (_ :: (session.run actions).history) = _
      rw [ih, session.run_limit, keepNewest_cons, if_neg (by simp [SessionAction.isClear]), notices_concat,
        List.map_append, List.reverse_append]
      rfl

theorem run_observers (session : Session) (actions : List SessionAction) :
    (session.run actions).observers =
      session.observers.map ((notices actions).foldl Observer.notify) ++
        (subscriptions actions).map fun subscription =>
          (notices subscription.2).foldl Observer.notify subscription.1 := by
  induction actions generalizing session with
  | nil => simp [Session.run, notices, subscriptions]
  | cons action rest ih =>
    change ((session.after action).run rest).observers = _
    rw [ih]
    cases action with
    | clear => rfl
    | subscribe observer =>
      have silent : notices (.subscribe observer :: rest) = notices rest := rfl
      rw [silent, subscriptions]
      simp [Session.after, Session.subscribe]
    | submit description expression =>
      simp only [Session.after, Session.submit, List.map_map]
      rfl

theorem run_answers (session : Session) (actions : List SessionAction) :
    session.answers actions = (notices actions).map Notice.verdict := by
  induction actions generalizing session with
  | nil => rfl
  | cons action rest ih =>
    rw [Session.answers, ih]
    cases action with
    | submit | subscribe | clear => rfl

theorem zipIdx_map_snd {α β : Type} (items : List α) (told : β) :
    (items.zipIdx.map fun numbered => (numbered.2, told)) = (List.range items.length).map (·, told) := by
  have numbers : items.zipIdx.map Prod.snd = List.range items.length := by
    rw [List.zipIdx_map_snd, List.range_eq_range']
  rw [← numbers, List.map_map]
  rfl

theorem run_calls (session : Session) (actions : List SessionAction) :
    session.allCalls actions = callOrder session.observers.length actions := by
  induction actions generalizing session with
  | nil => rfl
  | cons action rest ih =>
    rw [Session.allCalls, ih]
    cases action with
    | clear => rfl
    | subscribe observer =>
      change callOrder (session.observers ++ [observer]).length rest = _
      rw [List.length_append, callOrder]
      rfl
    | submit description expression =>
      change session.calls _ ++ callOrder (session.observers.map _).length rest = _
      rw [List.length_map, callOrder, Session.calls, zipIdx_map_snd]

/-- Tells the observer of this number. -/
def tell (observers : List Observer) (call : Nat × Notice) : List Observer :=
  observers.modify call.1 (·.notify call.2)

theorem tell_append_cons (told rest : List Observer) (observer : Observer) (notice : Notice) :
    tell (told ++ observer :: rest) (told.length, notice) = told ++ observer.notify notice :: rest := by
  induction told with
  | nil => rfl
  | cons first told ih => exact congrArg (first :: ·) ih

theorem foldl_tell (notice : Notice) (told waiting : List Observer) :
    ((List.range' told.length waiting.length).map (·, notice)).foldl tell (told ++ waiting) =
      told ++ waiting.map (·.notify notice) := by
  induction waiting generalizing told with
  | nil => rfl
  | cons observer rest ih =>
    have others := ih (told ++ [observer.notify notice])
    rw [List.length_append, List.append_assoc, List.append_assoc] at others
    rw [List.length_cons, List.range'_succ, List.map_cons, List.foldl_cons, tell_append_cons]
    exact others

/-- The calls of an action, made one after the other, lead to the observers that it leaves. -/
theorem after_calls (session : Session) (description expression : String) :
    (session.calls (.submit description expression)).foldl tell session.observers =
      (session.after (.submit description expression)).observers := by
  rw [Session.calls, zipIdx_map_snd, List.range_eq_range']
  exact foldl_tell _ [] session.observers

theorem received_append (number : Nat) (calls more : List (Nat × Notice)) :
    received number (calls ++ more) = received number calls ++ received number more :=
  List.filterMap_append

theorem received_range (number known : Nat) (notice : Notice) :
    received number ((List.range known).map (·, notice)) = if number < known then [notice] else [] := by
  induction known with
  | zero => rfl
  | succ known ih =>
    rw [List.range_succ, List.map_append, received_append, ih]
    by_cases last : known = number
    · simp [received, last]
    · by_cases before : number < known
      · have now : number < known + 1 := by omega
        simp [received, last, before, now]
      · have later : ¬number < known + 1 := by omega
        simp [received, last, before, later]

/-- An observer that is there already is told of every submission. -/
theorem received_known {number known : Nat} (there : number < known) (actions : List SessionAction) :
    received number (callOrder known actions) = notices actions := by
  induction actions generalizing known with
  | nil => rfl
  | cons action rest ih =>
    cases action with
    | clear => exact ih there
    | subscribe observer => exact ih (Nat.lt_succ_of_lt there)
    | submit description expression =>
      rw [callOrder, received_append, received_range, if_pos there, ih there]
      rfl

/-- An observer is told of the submissions after its subscription and of no others. -/
theorem received_subscribed {observer : Observer} {later : List SessionAction} (known : Nat) {number : Nat}
    {actions : List SessionAction} (subscribed : (subscriptions actions)[number]? = some (observer, later)) :
    received (known + number) (callOrder known actions) = notices later := by
  induction actions generalizing known number with
  | nil => cases subscribed
  | cons action rest ih =>
    cases action with
    | clear => exact ih known subscribed
    | subscribe other =>
      rw [subscriptions] at subscribed
      cases number with
      | zero =>
        cases subscribed
        exact received_known (Nat.lt_succ_self known) later
      | succ number =>
        have others := ih (known + 1) subscribed
        rwa [Nat.add_right_comm] at others
    | submit description expression =>
      rw [callOrder, received_append, received_range, if_neg (by omega), ih known subscribed]
      rfl

theorem foldl_recorder (got later : List Notice) :
    later.foldl Observer.notify (.recorder got) = .recorder (got ++ later) := by
  induction later generalizing got with
  | nil => rw [List.append_nil]; rfl
  | cons notice rest ih => exact (ih (got ++ [notice])).trans (by rw [List.append_assoc]; rfl)

theorem notices_entries (actions : List SessionAction) :
    (notices actions).map Notice.entry = actions.filterMap SessionAction.entry? := by
  rw [notices, List.map_filterMap]
  refine congrArg (List.filterMap · actions) (funext fun action => ?_)
  cases action with
  | submit | subscribe | clear => rfl

theorem notices_verdicts (actions : List SessionAction) :
    (notices actions).map Notice.verdict = actions.filterMap SessionAction.verdict? := by
  rw [notices, List.map_filterMap]
  refine congrArg (List.filterMap · actions) (funext fun action => ?_)
  cases action with
  | submit | subscribe | clear => rfl

/-- A notice tells of its entry what an evaluation gives: a result if that is a success, else the error. -/
theorem notice_faithful {actions : List SessionAction} {notice : Notice} (member : notice ∈ notices actions) :
    notice.verdict = evaluate notice.entry.expression ∧
      (∀ result, notice.verdict = .ok result → notice.entry.outcome = .success result) ∧
      ∀ failure, notice.verdict = .error failure → notice.entry.outcome = .failure failure.stage failure.message := by
  obtain ⟨action, _, told⟩ := List.mem_filterMap.mp member
  cases action with
  | submit description expression =>
    cases told
    refine ⟨rfl, fun result success => ?_, fun failure refused => ?_⟩
    · exact congrArg Outcome.ofVerdict success
    · exact congrArg Outcome.ofVerdict refused
  | subscribe | clear => cases told

/-- All entries are kept without a limit, else as many as there is room for. -/
theorem keepNewest_cases {limit : Option Nat} {entries history : List Entry} (kept : history = keepNewest limit entries) :
    (limit = none → history = entries) ∧ ∀ room, limit = some room → history = entries.take room := by
  refine ⟨?_, ?_⟩
  · rintro rfl
    exact kept
  · rintro room rfl
    exact kept

theorem mem_of_mem_keepNewest {limit : Option Nat} {entry : Entry} {entries : List Entry}
    (kept : entry ∈ keepNewest limit entries) : entry ∈ entries := by
  cases limit with
  | none => exact kept
  | some => exact List.mem_of_mem_take kept

/-- What holds of a session that started empty, after any actions. -/
structure SessionLaw (limit : Option Nat) (actions : List SessionAction) (session : Session)
    (answers : List (Except Failure Float)) (calls : List (Nat × Notice)) : Prop where
  /-- Without a limit all entries since the history was last emptied are there. -/
  unlimited : limit = none → session.history = newestFirst actions
  /-- With a limit the newest of them are, as many as there is room for. -/
  limited : ∀ room, limit = some room → session.history = (newestFirst actions).take room
  /-- What is recorded comes out again when the expression is evaluated again. -/
  reproducible : ∀ entry ∈ session.history,
    (∀ result, evaluate entry.expression = .ok result → entry.outcome = .success result) ∧
      ∀ failure, evaluate entry.expression = .error failure → entry.outcome = .failure failure.stage failure.message
  answers : answers = actions.filterMap SessionAction.verdict?
  /-- Calls come in the order of the submissions and, for one submission, of the subscriptions. -/
  order : calls = callOrder 0 actions
  /-- Observers are told of the submissions after their subscription, once of each. -/
  told : ∀ (number : Nat) observer later, (subscriptions actions)[number]? = some (observer, later) →
    received number calls = notices later ∧
      session.observers[number]? = some ((notices later).foldl Observer.notify observer)
  recorders : ∀ (number : Nat) got later, (subscriptions actions)[number]? = some (.recorder got, later) →
    session.observers[number]? = some (.recorder (got ++ notices later))
  /-- What is told of a submission is its entry, and a result if that is a success, else the error. -/
  entries : (notices actions).map Notice.entry = actions.filterMap SessionAction.entry?
  faithful : ∀ notice ∈ notices actions, notice.verdict = evaluate notice.entry.expression ∧
    (∀ result, notice.verdict = .ok result → notice.entry.outcome = .success result) ∧
    ∀ failure, notice.verdict = .error failure → notice.entry.outcome = .failure failure.stage failure.message

theorem subscribed_observers {limit : Option Nat} {actions later : List SessionAction} {number : Nat}
    {observer : Observer} (subscribed : (subscriptions actions)[number]? = some (observer, later)) :
    (Session.run { limit := limit } actions).observers[number]? =
      some ((notices later).foldl Observer.notify observer) := by
  rw [run_observers, List.map_nil, List.nil_append, List.getElem?_map, subscribed]
  rfl

/-- The history of a session, what its observers get to know and what it answers are determined by the
actions alone, whatever they are. What a submission does to the observers is to make its calls, one after
the other. -/
theorem session_law (limit : Option Nat) (actions : List SessionAction) :
    SessionLaw limit actions (Session.run { limit := limit } actions)
      (Session.answers { limit := limit } actions) (Session.allCalls { limit := limit } actions) ∧
    ∀ (session : Session) description expression,
      (session.calls (.submit description expression)).foldl tell session.observers =
        (session.after (.submit description expression)).observers := by
  have history := run_history { limit := limit } rfl actions
  have calls := run_calls { limit := limit } actions
  rw [notices_entries] at history
  obtain ⟨unlimited, limited⟩ := keepNewest_cases history
  refine ⟨⟨unlimited, limited, ?_, ?_, calls, ?_, ?_, notices_entries actions, fun notice => notice_faithful⟩, after_calls⟩
  · intro entry kept
    rw [history, ← notices_entries] at kept
    obtain ⟨notice, member, rfl⟩ := List.mem_map.mp (List.mem_reverse.mp (mem_of_mem_keepNewest kept))
    obtain ⟨verdict, outcome⟩ := notice_faithful member
    rwa [verdict] at outcome
  · rw [run_answers, notices_verdicts]
  · intro number observer later subscribed
    have got := received_subscribed 0 subscribed
    rw [Nat.zero_add] at got
    exact ⟨(congrArg (received number) calls).trans got, subscribed_observers subscribed⟩
  · intro number got later subscribed
    rw [subscribed_observers subscribed, foldl_recorder]

end Calculator
