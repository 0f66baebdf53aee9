import Campus.Engine
import Campus.Proofs.Query.Acceptance
import Campus.Proofs.Query.Execution

/-!
# Accounting for queries

An engine over datasets in memory counts every call once, under the way in which it ended: with
rows, rejected, or with too many matches. There is no fourth way, since a query that is read asks a
dataset that is there. `Asked.Accounted` is what holds of one call, whatever went before
(`Engine.accounted_ask`), and from it the counters are totals over all calls
(`Engine.counted_afterAll`). `Engine.accounting` says both.
-/

namespace Campus

variable {m : Memory}

/-! ### Queries of datasets in memory -/

/-- The catalog of datasets in memory knows those that are there. -/
theorem Memory.exists_lookup_of_kindOf? {id : String} {kind : Kind}
    (h : m.source.catalog.kindOf? id = some kind) :
    ∃ kind records, m.entries.lookup id = some (kind, records) := by
  have hname : id ∈ Assoc.names m.source.datasets := by
    have hmem := Assoc.mem_names_of_mem (Assoc.mem_of_lookup h)
    simpa [Source.catalog, Catalog.ofList, Assoc.mem_names_putAll] using hmem
  have hkind : (m.source.kindOf? id).isSome = true := Assoc.lookup_isSome.mpr hname
  rw [Memory.kindOf?_source, Option.isSome_map] at hkind
  obtain ⟨⟨kind, records⟩, hentry⟩ := Option.isSome_iff_exists.mp hkind
  exact ⟨kind, records, hentry⟩

namespace Query

variable {q : Query} {kind : Kind} {records : List Record} {limit : Nat}

/-- The numbers of an answer tell how many records there are, how many of them match, and that none
was left out. -/
structure Counts (q : Query) (kind : Kind) (records : List Record) (a : Answer) : Prop where
  scanned : a.scanned = records.length
  matched : a.matched = (q.found kind records).length
  skipped : a.skipped = 0

/-- A query of a dataset in memory has an answer or too many matches. The scan logs nothing. -/
theorem run_memory (hentry : m.entries.lookup q.dataset = some (kind, records)) (limit : Nat) :
    q.run m.source limit = (.error (.tooLarge limit), []) ∨
      ∃ a, q.run m.source limit = (.ok a, []) ∧ q.Counts kind records a := by
  have hkind : m.source.kindOf? q.dataset = some kind := by
    rw [Memory.kindOf?_source, hentry, Option.map_some]
  have hbatches : m.source.batches q.dataset = .ok [.readable "" (records.map .ok)] := by
    simp only [Memory.source, Memory.batches, hentry]
  have hreference := run_eq_reference (.memory hentry) limit
  obtain ⟨hskipped, hlog⟩ := Scan.leftOut_run (q.matchVisitor kind limit) .none "" records
  simp only [run, hkind, hbatches] at hreference ⊢
  rw [hlog]
  split at hreference
  · next hstopped =>
    rw [if_pos hstopped]
    exact .inl rfl
  · next hstopped =>
    rw [if_neg hstopped]
    refine .inr ⟨_, rfl, ?_⟩
    rw [reference] at hreference
    split at hreference
    · cases hreference
    · have hnumbers := Except.ok.inj hreference
      simp only [Prod.mk.injEq] at hnumbers
      exact ⟨hnumbers.2.1, hnumbers.1, hskipped⟩

end Query

/-- The answer that a query of datasets in memory has, if it is read and has one. -/
def Memory.answer? (m : Memory) (query : Json) : Option Answer :=
  match Query.ofJson m.source.catalog query with
  | .ok q => (q.run m.source matchLimit).1.toOption
  | .error _ => none

/-! ### Endings -/

/-- The code of the failure that a call ended with, if it did not end with rows. -/
def Asked.code? (a : Asked) : Option ServiceCode :=
  match a.result with
  | .ok _ => none
  | .error e => some e.code

/-- The event that is logged at an ending. -/
def endingEvent : Option ServiceCode → Event
  | none => .queryExecuted
  | some .queryInvalid => .queryRejected
  | some .resultTooLarge => .queryTooLarge
  | some _ => .queryFailed

/-- The counters after some endings: each ending has been counted once, and the numbers of the
answers have been added up. -/
structure Metrics.Counted (before after : Metrics) (endings : List (Option ServiceCode))
    (answers : List Answer) : Prop where
  executed : after.executed = before.executed + .ofNat (endings.count none)
  rejected : after.rejected = before.rejected + .ofNat (endings.count (some .queryInvalid))
  tooLarge : after.tooLarge = before.tooLarge + .ofNat (endings.count (some .resultTooLarge))
  failed : after.failed = before.failed + .ofNat (endings.count (some .internal))
  scanned : after.scanned = before.scanned + .ofNat (answers.map (·.scanned)).sum
  matched : after.matched = before.matched + .ofNat (answers.map (·.matched)).sum
  skipped : after.skipped = before.skipped + .ofNat (answers.map (·.skipped)).sum

namespace Metrics.Counted

variable {before between after : Metrics} {endings endings' : List (Option ServiceCode)}
  {answers answers' : List Answer}

theorem refl (metrics : Metrics) : metrics.Counted metrics [] [] := by
  constructor <;> simp

theorem trans (h : before.Counted between endings answers)
    (h' : between.Counted after endings' answers') :
    before.Counted after (endings ++ endings') (answers ++ answers') := by
  constructor
  · rw [h'.executed, h.executed, List.count_append, UInt64.ofNat_add, UInt64.add_assoc]
  · rw [h'.rejected, h.rejected, List.count_append, UInt64.ofNat_add, UInt64.add_assoc]
  · rw [h'.tooLarge, h.tooLarge, List.count_append, UInt64.ofNat_add, UInt64.add_assoc]
  · rw [h'.failed, h.failed, List.count_append, UInt64.ofNat_add, UInt64.add_assoc]
  · rw [h'.scanned, h.scanned, List.map_append, List.sum_append, UInt64.ofNat_add, UInt64.add_assoc]
  · rw [h'.matched, h.matched, List.map_append, List.sum_append, UInt64.ofNat_add, UInt64.add_assoc]
  · rw [h'.skipped, h.skipped, List.map_append, List.sum_append, UInt64.ofNat_add, UInt64.add_assoc]

end Metrics.Counted

namespace Outcome

/-- The code of the failure that an outcome is reported as. -/
def code? : Outcome → Option ServiceCode
  | .rejected _ => some .queryInvalid
  | .failed _ (.tooLarge _) => some .resultTooLarge
  | .failed _ (.unavailable _ _) => some .internal
  | .answered _ _ => none

/-- The answer of an outcome. -/
def answer? : Outcome → Option Answer
  | .answered _ a => some a
  | _ => none

theorem event_eq (o : Outcome) : o.event = endingEvent o.code? := by
  cases o with
  | failed dataset f => cases f <;> rfl
  | _ => rfl

theorem toOption_result (o : Outcome) : o.result.toOption = o.answer?.map (·.rows) := by
  cases o <;> rfl

/-- An outcome is counted once. -/
theorem counted_addTo (o : Outcome) (before : Metrics) :
    before.Counted (o.addTo before) [o.code?] o.answer?.toList := by
  cases o with
  | rejected r => constructor <;> simp [addTo, Metrics.addRejected, code?, answer?]
  | failed dataset f =>
      cases f with
      | tooLarge limit => constructor <;> simp [addTo, Metrics.addTooLarge, code?, answer?]
      | unavailable id reason => constructor <;> simp [addTo, Metrics.addFailed, code?, answer?]
  | answered dataset a =>
      constructor <;> simp [addTo, Metrics.addExecuted, Metrics.addScan, code?, answer?]

end Outcome

/-! ### One call -/

/-- What a call leaves behind, given the counters before it. -/
structure Asked.Accounted (a : Asked) (m : Memory) (before : Metrics) (stamp : Stamp)
    (query : Json) : Prop where
  /-- A call ends with the rows of the answer, or with one of two failures. -/
  rows : a.result.toOption = (m.answer? query).map (·.rows)
  ending : a.code? ∈ [none, some .queryInvalid, some .resultTooLarge]
  /-- It is counted under this ending, and only an answer adds to what was scanned. -/
  counted : before.Counted a.engine.metrics [a.code?] (m.answer? query).toList
  numbers : ∀ answer ∈ m.answer? query, ∃ q kind records,
    Query.ofJson m.source.catalog query = .ok q ∧
      m.entries.lookup q.dataset = some (kind, records) ∧ q.Counts kind records answer
  /-- Two lines are logged, as far as they are severe enough. -/
  lines : ∃ fields, ∀ least, enabledLines least a.log =
    [Event.queryReceived.line [("query_id", stamp.id)],
      (endingEvent a.code?).line (("query_id", stamp.id) :: fields)].filter
        fun line => least.enabled line.severity
  complete : ∀ line ∈ a.log, line.event ≠ "QUERY_INCOMPLETE"

/-- The numbers of an answer are those of its dataset. -/
theorem Memory.counts_of_answer? {query : Json} {answer : Answer}
    (h : m.answer? query = some answer) : ∃ q kind records,
      Query.ofJson m.source.catalog query = .ok q ∧
        m.entries.lookup q.dataset = some (kind, records) ∧ q.Counts kind records answer := by
  unfold Memory.answer? at h
  split at h
  · next q hread =>
    obtain ⟨kind, hkind⟩ := Query.kindOf?_dataset_of_ofJson hread
    obtain ⟨kind', records, hentry⟩ := Memory.exists_lookup_of_kindOf? hkind
    refine ⟨q, kind', records, hread, hentry, ?_⟩
    rcases Query.run_memory hentry matchLimit with hrun | ⟨a, hrun, hcounts⟩
    · rw [hrun] at h
      cases h
    · rw [hrun] at h
      cases h
      exact hcounts
  · cases h

namespace Engine

variable {e : Engine}

/-- A query of datasets in memory has an outcome that is no failure of the program. The scan logs
nothing. -/
theorem exists_outcome (h : e.catalog = m.source.catalog) (query : Json) :
    ∃ o, e.outcome m.source query = (o, []) ∧ o.answer? = m.answer? query ∧
      o.code? ∈ [none, some .queryInvalid, some .resultTooLarge] := by
  unfold outcome Memory.answer?
  rw [h]
  cases hread : Query.ofJson m.source.catalog query with
  | error r => exact ⟨_, rfl, rfl, by simp [Outcome.code?]⟩
  | ok q =>
      obtain ⟨kind, hkind⟩ := Query.kindOf?_dataset_of_ofJson hread
      obtain ⟨kind', records, hentry⟩ := Memory.exists_lookup_of_kindOf? hkind
      dsimp only
      rcases Query.run_memory hentry matchLimit with hrun | ⟨a, hrun, -⟩
      · rw [hrun]
        exact ⟨_, rfl, rfl, by simp [Outcome.code?]⟩
      · rw [hrun]
        exact ⟨_, rfl, rfl, by simp [Outcome.code?]⟩

theorem code?_conclude (e : Engine) (stamp : Stamp) (o : Outcome) :
    (e.conclude stamp (o, [])).code? = o.code? := by
  cases o with
  | failed dataset f => cases f <;> rfl
  | _ => rfl

/-- The scope of a query is ended, so it logs its begin and its end, and nothing else if the scan
logs nothing. -/
theorem log_conclude (e : Engine) (stamp : Stamp) (o : Outcome) :
    (e.conclude stamp (o, [])).log =
      [Event.queryReceived.line [("query_id", stamp.id)],
        (endingEvent o.code?).line (("query_id", stamp.id) :: o.fields stamp.elapsed)] := by
  rw [← o.event_eq]
  rfl

/-- The line of an event does not look like that of a scope without an end. -/
theorem event_line_ne (event : Event) (fields : List (String × String)) :
    (event.line fields).event ≠ "QUERY_INCOMPLETE" := by
  show event.name ≠ _
  cases event <;> decide

/-- A call is accounted for, whatever went before. -/
theorem accounted_ask (h : e.catalog = m.source.catalog) (stamp : Stamp) (query : Json) :
    (e.ask m.source stamp query).Accounted m e.metrics stamp query := by
  obtain ⟨o, houtcome, hanswer, hending⟩ := exists_outcome h query
  rw [ask, houtcome]
  refine ⟨?_, ?_, ?_, fun answer hfound => Memory.counts_of_answer? hfound,
    ⟨o.fields stamp.elapsed, fun least => ?_⟩, ?_⟩
  · rw [← hanswer]
    exact o.toOption_result
  · rw [code?_conclude]
    exact hending
  · rw [code?_conclude, ← hanswer]
    exact o.counted_addTo e.metrics
  · rw [enabledLines, log_conclude, code?_conclude]
  · rw [log_conclude]
    intro line hline
    rcases List.mem_cons.mp hline with rfl | hline
    · exact event_line_ne _ _
    · obtain rfl := List.mem_singleton.mp hline
      exact event_line_ne _ _

/-! ### Runs of calls -/

/-- What the calls of a run leave behind, one after the other. -/
def askAll (e : Engine) (source : Source) : List (Stamp × Json) → List Asked
  | [] => []
  | (stamp, query) :: calls =>
    let asked := e.ask source stamp query
    asked :: asked.engine.askAll source calls

/-- The engine after the calls of a run. -/
def afterAll (e : Engine) (source : Source) (calls : List (Stamp × Json)) : Engine :=
  calls.foldl (fun e call => (e.ask source call.1 call.2).engine) e

theorem catalog_afterAll (e : Engine) (source : Source) (calls : List (Stamp × Json)) :
    (e.afterAll source calls).catalog = e.catalog := by
  induction calls generalizing e with
  | nil => rfl
  | cons call calls ih => exact ih (e.ask source call.1 call.2).engine

/-- No call of a run ends with a failure of the program. -/
theorem code?_of_mem_askAll (h : e.catalog = m.source.catalog) {calls : List (Stamp × Json)}
    {a : Asked} (ha : a ∈ e.askAll m.source calls) :
    a.code? ∈ [none, some .queryInvalid, some .resultTooLarge] := by
  induction calls generalizing e with
  | nil => cases ha
  | cons call calls ih =>
      rcases List.mem_cons.mp ha with rfl | ha
      · exact (accounted_ask h call.1 call.2).ending
      · exact ih (e := (e.ask m.source call.1 call.2).engine) h ha

/-- The counters of a run are totals over its calls. -/
theorem counted_afterAll (h : e.catalog = m.source.catalog) (calls : List (Stamp × Json)) :
    e.metrics.Counted (e.afterAll m.source calls).metrics
      ((e.askAll m.source calls).map Asked.code?)
      (calls.filterMap fun call => m.answer? call.2) := by
  induction calls generalizing e with
  | nil => exact .refl e.metrics
  | cons call calls ih =>
      have hanswers : ((call :: calls).filterMap fun call => m.answer? call.2) =
          (m.answer? call.2).toList ++ calls.filterMap fun call => m.answer? call.2 := by
        rw [List.filterMap_cons]
        cases m.answer? call.2 <;> rfl
      rw [hanswers]
      exact (accounted_ask h call.1 call.2).counted.trans (ih h)

/-- An engine over datasets in memory accounts for every call, after any calls before it, and its
counters are totals over all calls. No query fails for a dataset that is missing. -/
theorem accounting (m : Memory) (calls : List (Stamp × Json)) :
    let start := ofSource m.source
    let after := start.afterAll m.source calls
    (∀ stamp query,
      (after.ask m.source stamp query).Accounted m after.metrics stamp query) ∧
    Metrics.zero.Counted after.metrics ((start.askAll m.source calls).map Asked.code?)
      (calls.filterMap fun call => m.answer? call.2) ∧
    after.metrics.failed = 0 := by
  intro start after
  have hcounted := counted_afterAll (m := m) (e := start) rfl calls
  refine ⟨?_, hcounted, ?_⟩
  · intro stamp query
    exact accounted_ask (catalog_afterAll start m.source calls) stamp query
  · have hnone : ((start.askAll m.source calls).map Asked.code?).count (some .internal) = 0 := by
      rw [List.count_eq_zero]
      intro hmem
      obtain ⟨a, ha, hcode⟩ := List.mem_map.mp hmem
      have hending := code?_of_mem_askAll rfl ha
      rw [hcode] at hending
      revert hending
      decide
    rw [hcounted.failed, hnone]
    rfl

end Engine

end Campus
