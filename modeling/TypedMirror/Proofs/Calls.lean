import TypedMirror.Commit

/-!
# What a commit asks of its store

A commit makes its calls in the order that the plan prescribes: it runs a statement, and asks for
warnings after those that make or fill something.  It goes on as long as the answers allow, and so
what it has done when it stops can be read off the calls and their answers.

* `Plan.requests` — the calls of a whole plan, and for whom each is made;
* `Conducts.bind`, `Conducts.mapM` — an action conducts the calls of its parts;
* `checked_prefix` — a commit makes these calls up to the first whose answer stops it.
-/

namespace TypedMirror

variable {S : Type}

/-! ## Calls and answers -/

namespace Store

/-- What a store is asked. -/
inductive Call
  | execute (sql : Text)
  | warnings
deriving DecidableEq, Repr

def Call.statement? : Call → Option Text
  | .execute sql => some sql
  | .warnings => none

/-- A call with the answer to it. -/
inductive Exchange
  | execute (sql : Text) (answer : Except Failure Nat)
  | warnings (answer : Except Failure (List Warning))

namespace Exchange

def call : Exchange → Call
  | .execute sql _ => .execute sql
  | .warnings _ => .warnings

/-- The statement was carried out, or there was no more than notes to say on it. -/
def Fine : Exchange → Prop
  | .execute _ answer => ∃ rows, answer = .ok rows
  | .warnings answer => ∃ ws, answer = .ok ws ∧ ∀ w ∈ ws, w.level = .note

/-- The answer stops a commit with this error, if the call was made for `subject`. -/
def Raises (subject : Text) (e : CommitError) : Exchange → Prop
  | .execute _ answer => ∃ f, answer = .error f ∧ e = .statement subject f.text
  | .warnings answer => (∃ f, answer = .error f ∧ e = .store f) ∨
      ∃ ws, answer = .ok ws ∧ (∃ w ∈ ws, w.level ≠ .note) ∧
        e = .statement subject
          (Text.joinWith "; ".toList ((ws.filter (·.level ≠ .note)).map (·.text)))

theorem Raises.not_fine {subject : Text} {e : CommitError} {x : Exchange} (h : x.Raises subject e) :
    ¬ x.Fine := by
  cases x with
  | execute sql answer =>
    obtain ⟨f, rfl, -⟩ := h
    rintro ⟨rows, ⟨⟩⟩
  | warnings answer =>
    rcases h with ⟨f, rfl, -⟩ | ⟨ws, rfl, ⟨w, hw, hlevel⟩, -⟩
    · rintro ⟨ws, ⟨⟩, -⟩
    · rintro ⟨ws', ⟨⟩, hnotes⟩
      exact hlevel (hnotes w hw)

end Exchange

/-- The store, with a record of the calls made to it. -/
def recorded (store : Store S) : Store (S × List Exchange) where
  execute sql s :=
    match store.execute sql s.1 with
    | (answer, s') => (answer, s', s.2 ++ [.execute sql answer])
  warnings s :=
    match store.warnings s.1 with
    | (answer, s') => (answer, s', s.2 ++ [.warnings answer])

section

variable {store : Store S} {s s' : S}

theorem recorded_execute {sql : Text} {answer : Except Failure Nat}
    (h : store.execute sql s = (answer, s')) (log : List Exchange) :
    store.recorded.execute sql (s, log) = (answer, s', log ++ [.execute sql answer]) := by
  simp only [recorded, h]

theorem recorded_warnings {answer : Except Failure (List Warning)}
    (h : store.warnings s = (answer, s')) (log : List Exchange) :
    store.recorded.warnings (s, log) = (answer, s', log ++ [.warnings answer]) := by
  simp only [recorded, h]

end

end Store

open Store (Call Exchange)

/-- A call made for a mirror or trigger. -/
structure Request where
  subject : Text
  call : Call
deriving DecidableEq, Repr

/-! ## The calls of a plan -/

def MirrorPlan.requests (p : MirrorPlan Text) : List Request :=
  p.drops.map (fun sql => ⟨p.mirror, .execute sql⟩) ++
    [⟨p.mirror, .execute p.create⟩, ⟨p.mirror, .warnings⟩,
      ⟨p.mirror, .execute p.backfill⟩, ⟨p.mirror, .warnings⟩]

def TriggerPlan.requests (p : TriggerPlan Text) : List Request :=
  [⟨p.name, .execute p.drop⟩, ⟨p.name, .execute p.create⟩, ⟨p.name, .warnings⟩]

namespace Plan

def requests (p : Plan Text) : List Request :=
  p.mirrors.flatMap MirrorPlan.requests ++ p.triggers.flatMap TriggerPlan.requests

/-- The calls run the statements of the plan. -/
theorem statements_requests (p : Plan Text) :
    p.requests.filterMap (·.call.statement?) = p.statements := by
  have hmirror : ∀ m : MirrorPlan Text,
      m.requests.filterMap (·.call.statement?) = m.statements := by
    intro m
    rw [MirrorPlan.requests, List.filterMap_append, List.filterMap_map]
    exact congrArg (· ++ _) (List.filterMap_some)
  rw [requests, List.filterMap_append, List.filterMap_flatMap, List.filterMap_flatMap, statements]
  congr 1
  exact congrArg (p.mirrors.flatMap ·) (funext hmirror)

end Plan

/-! ## Actions and the calls they conduct -/

namespace Commit

/-- All calls have been made, and no answer stops a commit. -/
structure Completes (q : List Request) (log : List Exchange) : Prop where
  calls : log.map (·.call) = q.map (·.call)
  fine : ∀ x ∈ log, x.Fine

/-- The calls have been made up to the first whose answer stops a commit. -/
def Stops (q : List Request) (log : List Exchange) (e : CommitError) : Prop :=
  ∃ before subject last after made, q = before ++ ⟨subject, last.call⟩ :: after ∧
    log = made ++ [last] ∧ Completes before made ∧ last.Raises subject e

/-- An action makes these calls of a recorded store, and does there what it does of the store
alone.  `Result` relates what it comes to and the calls that it has made. -/
def Conducts {α : Type} (alone : Action S α) (action : Action (S × List Exchange) α)
    (q : List Request) (Result : α → List Exchange → Prop) : Prop :=
  ∀ s log, ∃ new, action (s, log) = ((alone s).1, (alone s).2, log ++ new) ∧
    match (alone s).1 with
    | .ok a => Completes q new ∧ Result a new
    | .error e => Stops q new e

variable {α β : Type} {q r : List Request} {log log' : List Exchange}

namespace Completes

theorem append (h : Completes q log) (h' : Completes r log') :
    Completes (q ++ r) (log ++ log') :=
  ⟨by rw [List.map_append, List.map_append, h.calls, h'.calls],
    List.forall_mem_append.2 ⟨h.fine, h'.fine⟩⟩

theorem length_eq (h : Completes q log) : log.length = q.length := by
  simpa using congrArg List.length h.calls

theorem isPrefix (h : Completes q log) : log.map (·.call) <+: q.map (·.call) :=
  h.calls ▸ List.prefix_rfl

end Completes

namespace Stops

variable {e : CommitError}

theorem left (h : Stops q log e) : Stops (q ++ r) log e := by
  obtain ⟨before, subject, last, after, made, rfl, hlog, hmade, hraises⟩ := h
  exact ⟨before, subject, last, after ++ r, made, by simp, hlog, hmade, hraises⟩

theorem right (h : Completes q log) (h' : Stops r log' e) :
    Stops (q ++ r) (log ++ log') e := by
  obtain ⟨before, subject, last, after, made, rfl, rfl, hmade, hraises⟩ := h'
  exact ⟨q ++ before, subject, last, after, log ++ made, by simp, by simp,
    h.append hmade, hraises⟩

theorem isPrefix (h : Stops q log e) : log.map (·.call) <+: q.map (·.call) := by
  obtain ⟨before, subject, last, after, made, rfl, rfl, hmade, -⟩ := h
  refine ⟨after.map (·.call), ?_⟩
  rw [List.map_append, hmade.calls, List.map_append, List.append_assoc]
  rfl

theorem not_fine (h : Stops q log e) : ¬ ∀ x ∈ log, x.Fine := by
  obtain ⟨-, subject, last, -, made, -, rfl, -, hraises⟩ := h
  intro hfine
  exact hraises.not_fine (hfine last (by simp))

end Stops

/-- An action, and what follows if it comes to a result. -/
theorem bind_apply (a : Action S α) (f : α → Action S β) (s : S) :
    (a >>= f) s = match a s with
      | (.ok x, s') => f x s'
      | (.error e, s') => (.error e, s') := by
  show (match a s with | (x, s') => ExceptT.bindCont f x s') = _
  split
  · rename_i x s' h
    rw [h]
    cases x <;> rfl

namespace Conducts

variable {a : Action S α} {b : Action (S × List Exchange) α} {f : α → Action S β}
  {g : α → Action (S × List Exchange) β} {R : α → List Exchange → Prop}
  {Q : β → List Exchange → Prop}

theorem pure {x : α} (h : R x []) : Conducts (S := S) (Pure.pure x) (Pure.pure x) [] R :=
  fun _ _ => ⟨[], by rw [List.append_nil]; rfl, ⟨rfl, by simp⟩, h⟩

theorem bind (h : Conducts a b q R)
    (hf : ∀ x new, R x new → Completes q new →
      Conducts (f x) (g x) r fun y new' => Q y (new ++ new')) :
    Conducts (a >>= f) (b >>= g) (q ++ r) Q := by
  intro s log
  obtain ⟨new, hb, hnew⟩ := h s log
  rw [bind_apply, bind_apply, hb]
  cases ha : a s with
  | mk outcome s' =>
    rw [ha] at hnew
    cases outcome with
    | error e => exact ⟨new, rfl, hnew.left⟩
    | ok x =>
      obtain ⟨hdone, hx⟩ := hnew
      obtain ⟨new', hg, hnew'⟩ := hf x new hx hdone s' (log ++ new)
      refine ⟨new ++ new', by rw [← List.append_assoc]; exact hg, ?_⟩
      show match (f x s').1 with | .ok a => _ | .error e => _
      cases hy : (f x s').1 with
      | error e =>
        rw [hy] at hnew'
        exact .right hdone hnew'
      | ok y =>
        rw [hy] at hnew'
        exact ⟨hdone.append hnew'.1, hnew'.2⟩

theorem execute (store : Store S) (subject sql : Text) :
    Conducts (Commit.execute store subject sql) (Commit.execute store.recorded subject sql)
      [⟨subject, .execute sql⟩] fun rows new => new = [.execute sql (.ok rows)] := by
  intro s log
  cases h : store.execute sql s with
  | mk answer s' =>
    simp only [Commit.execute, h, Store.recorded_execute h]
    cases answer with
    | ok rows =>
      exact ⟨_, rfl, ⟨rfl, List.forall_mem_singleton.2 ⟨rows, rfl⟩⟩, rfl⟩
    | error f =>
      exact ⟨_, rfl, [], subject, .execute sql (.error f), [], [], rfl, rfl, ⟨rfl, by simp⟩, f, rfl,
        rfl⟩

theorem checkWarnings (store : Store S) (subject : Text) :
    Conducts (Commit.checkWarnings store subject) (Commit.checkWarnings store.recorded subject)
      [⟨subject, .warnings⟩] fun _ new => ∃ x, new = [x] := by
  intro s log
  cases h : store.warnings s with
  | mk answer s' =>
    simp only [Commit.checkWarnings, h, Store.recorded_warnings h]
    cases answer with
    | error f =>
      exact ⟨_, rfl, [], subject, .warnings (.error f), [], [], rfl, rfl, ⟨rfl, by simp⟩,
        .inl ⟨f, rfl, rfl⟩⟩
    | ok ws =>
      dsimp only
      cases hws : ws.filter (·.level ≠ .note) with
      | nil =>
        have hnotes : ∀ w ∈ ws, w.level = .note := by simpa using List.filter_eq_nil_iff.1 hws
        exact ⟨_, rfl, ⟨rfl, List.forall_mem_singleton.2 ⟨ws, rfl, hnotes⟩⟩, _, rfl⟩
      | cons w rest =>
        have hmem : w ∈ ws.filter (·.level ≠ .note) := by rw [hws]; exact List.mem_cons_self
        obtain ⟨hw, hlevel⟩ := List.mem_filter.1 hmem
        refine ⟨_, rfl, [], subject, .warnings (.ok ws), [], [], rfl, rfl, ⟨rfl, by simp⟩, .inr ?_⟩
        exact ⟨ws, rfl, ⟨w, hw, by simpa using hlevel⟩, by rw [hws]; rfl⟩

theorem executeChecked (store : Store S) (subject sql : Text) :
    Conducts (Commit.executeChecked store subject sql)
      (Commit.executeChecked store.recorded subject sql)
      [⟨subject, .execute sql⟩, ⟨subject, .warnings⟩]
      fun rows new => ∃ x, new = [.execute sql (.ok rows), x] := by
  refine (execute store subject sql).bind (r := [⟨subject, .warnings⟩]) ?_
  rintro rows new rfl -
  refine (checkWarnings store subject).bind (r := []) ?_
  rintro - new ⟨x, rfl⟩ -
  exact .pure ⟨x, rfl⟩

end Conducts

/-! ## Lists of actions -/

/-- The results of some actions, and the calls that each of them has made. -/
inductive Gathers {ι : Type} (requests : ι → List Request)
    (Result : ι → α → List Exchange → Prop) : List ι → List α → List Exchange → Prop
  | nil : Gathers requests Result [] [] []
  | cons {i : ι} {x : α} {new log : List Exchange} {is : List ι} {xs : List α}
    (hnew : Completes (requests i) new) (hx : Result i x new)
    (h : Gathers requests Result is xs log) :
    Gathers requests Result (i :: is) (x :: xs) (new ++ log)

section Gathers

variable {ι : Type} {requests : ι → List Request} {Result : ι → α → List Exchange → Prop}
  {is : List ι} {xs : List α}

theorem Conducts.mapM {f : ι → Action S α} {g : ι → Action (S × List Exchange) α}
    (h : ∀ i, Conducts (f i) (g i) (requests i) (Result i)) (is : List ι) :
    Conducts (is.mapM f) (is.mapM g) (is.flatMap requests) (Gathers requests Result is) := by
  induction is with
  | nil => exact .pure .nil
  | cons i is ih =>
    rw [List.mapM_cons, List.mapM_cons, List.flatMap_cons]
    refine (h i).bind ?_
    intro x new hx hnew
    rw [← List.append_nil (is.flatMap requests)]
    refine ih.bind (r := []) ?_
    intro xs new' hxs _
    exact .pure (by rw [List.append_nil]; exact .cons hnew hx hxs)

namespace Gathers

theorem map_eq {f : ι → β} {g : α → β} (h : Gathers requests Result is xs log)
    (hf : ∀ i x new, Result i x new → g x = f i) : xs.map g = is.map f := by
  induction h with
  | nil => rfl
  | cons _ hx _ ih => rw [List.map_cons, List.map_cons, hf _ _ _ hx, ih]

/-- The result of one of the actions stands behind those of the actions before it, and so do its
calls. -/
theorem exists_of_append {before after : List ι} {i : ι}
    (h : Gathers requests Result (before ++ i :: after) xs log) :
    ∃ x made new rest, xs[before.length]? = some x ∧ log = made ++ (new ++ rest) ∧
      made.length = (before.flatMap requests).length ∧ Completes (requests i) new ∧
      Result i x new := by
  induction before generalizing xs log with
  | nil =>
    cases h with
    | cons hnew hx h => exact ⟨_, [], _, _, rfl, rfl, rfl, hnew, hx⟩
  | cons j before ih =>
    cases h with
    | cons hnew hx h =>
      obtain ⟨x, made, new, rest, hxs, rfl, hmade, hi⟩ := ih h
      refine ⟨x, _ ++ made, new, rest, hxs, by rw [List.append_assoc], ?_, hi⟩
      rw [List.length_append, List.flatMap_cons, List.length_append, hnew.length_eq, hmade]

end Gathers

end Gathers

/-! ## Mirrors and triggers -/

/-- The report on a mirror gives the rows of its own backfill. -/
def Filled (p : MirrorPlan Text) (m : CommittedMirror) (log : List Exchange) : Prop :=
  m.mirror = p.mirror ∧ m.table = p.table ∧
    log[p.drops.length + 2]? = some (.execute p.backfill (.ok m.rows))

theorem conducts_mirror (store : Store S) (p : MirrorPlan Text) :
    Conducts (mirror store p) (mirror store.recorded p) p.requests (Filled p) := by
  rw [MirrorPlan.requests, List.map_eq_flatMap]
  refine (Conducts.mapM (Conducts.execute store p.mirror) p.drops).bind ?_
  intro _ dropped _ hdropped
  refine (Conducts.executeChecked store p.mirror p.create).bind
    (r := [⟨p.mirror, .execute p.backfill⟩, ⟨p.mirror, .warnings⟩]) ?_
  rintro _ new ⟨x, rfl⟩ -
  refine (Conducts.executeChecked store p.mirror p.backfill).bind (r := []) ?_
  rintro rows new ⟨y, rfl⟩ -
  refine .pure ⟨rfl, rfl, ?_⟩
  have hlength : dropped.length = p.drops.length := by
    rw [hdropped.length_eq, ← List.map_eq_flatMap, List.length_map]
  simp [hlength]

theorem conducts_trigger (store : Store S) (p : TriggerPlan Text) :
    Conducts (trigger store p) (trigger store.recorded p) p.requests fun name _ => name = p.name := by
  refine (Conducts.execute store p.name p.drop).bind
    (r := [⟨p.name, .execute p.create⟩, ⟨p.name, .warnings⟩]) ?_
  rintro _ new rfl -
  refine (Conducts.executeChecked store p.name p.create).bind (r := []) ?_
  rintro _ new - -
  exact .pure rfl

/-- What a report says of the calls of a commit. -/
structure Reports (p : Plan Text) (report : CommitReport) (log : List Exchange) : Prop where
  triggers : report.triggers = p.triggers.map (·.name)
  names : report.mirrors.map (fun m => (m.mirror, m.table)) =
    p.mirrors.map fun m => (m.mirror, m.table)
  /-- The calls of a mirror start where those of the mirrors before it end. -/
  rows : ∀ before m after, p.mirrors = before ++ m :: after →
    ∃ c, report.mirrors[before.length]? = some c ∧
      log[(before.flatMap MirrorPlan.requests).length + m.drops.length + 2]? =
        some (.execute m.backfill (.ok c.rows))

theorem conducts_plan (store : Store S) (p : Plan Text) :
    Conducts (plan store p) (plan store.recorded p) p.requests (Reports p) := by
  refine (Conducts.mapM (conducts_mirror store) p.mirrors).bind ?_
  intro mirrors log hmirrors _
  rw [← List.append_nil (p.triggers.flatMap TriggerPlan.requests)]
  refine (Conducts.mapM (conducts_trigger store) p.triggers).bind (r := []) ?_
  intro triggers log' htriggers _
  refine .pure ⟨?_, ?_, ?_⟩
  · rw [← htriggers.map_eq (g := id) fun _ _ _ h => h]
    exact (List.map_id triggers).symm
  · exact hmirrors.map_eq fun m c _ h => by rw [h.1, h.2.1]
  · intro before m after hsplit
    rw [hsplit] at hmirrors
    obtain ⟨c, made, new, rest, hc, rfl, hmade, -, -, -, hrows⟩ := hmirrors.exists_of_append
    refine ⟨c, hc, ?_⟩
    rw [← hmade, List.append_assoc, List.append_assoc, Nat.add_assoc,
      List.getElem?_append_right (Nat.le_add_right _ _), Nat.add_sub_cancel_left,
      List.getElem?_append_left (List.getElem?_eq_some_iff.1 hrows).1, hrows]

/-- Whatever the store answers, a commit makes the calls of its plan in order.  It comes to the end of
them if every statement was carried out, with no more than notes to say on those that make or fill
something, and then reports the rows of each backfill.  Otherwise it stops right after the first call
that was answered in another way, with an error that names the mirror or trigger the call was made
for. -/
theorem checked_prefix (store : Store S) (p : Plan Text) (s : S) :
    ∃ outcome s' log, plan store.recorded p (s, []) = (outcome, s', log) ∧
      plan store p s = (outcome, s') ∧
      log.map (·.call) <+: p.requests.map (·.call) ∧
      log.filterMap (·.call.statement?) <+: p.statements ∧
      ((∃ report, outcome = .ok report) ↔ ∀ x ∈ log, x.Fine) ∧
      match outcome with
      | .ok report => Completes p.requests log ∧ Reports p report log
      | .error e => Stops p.requests log e := by
  obtain ⟨log, hrun, hlog⟩ := conducts_plan store p s []
  have hstatements : log.map (·.call) <+: p.requests.map (·.call) →
      log.filterMap (·.call.statement?) <+: p.statements := by
    intro h
    have hsome := h.filterMap Call.statement?
    rw [List.filterMap_map, List.filterMap_map] at hsome
    rw [← Plan.statements_requests p]
    exact hsome
  refine ⟨(plan store p s).1, (plan store p s).2, log, hrun, rfl, ?_⟩
  cases houtcome : (plan store p s).1 with
  | ok report =>
    rw [houtcome] at hlog
    exact ⟨hlog.1.isPrefix, hstatements hlog.1.isPrefix, ⟨fun _ => hlog.1.fine, fun _ => ⟨_, rfl⟩⟩,
      hlog⟩
  | error e =>
    rw [houtcome] at hlog
    refine ⟨hlog.isPrefix, hstatements hlog.isPrefix, ⟨?_, ?_⟩, hlog⟩
    · rintro ⟨report, ⟨⟩⟩
    · exact fun hfine => (hlog.not_fine hfine).elim

end Commit

end TypedMirror
