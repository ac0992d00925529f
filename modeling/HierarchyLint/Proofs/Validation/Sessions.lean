import HierarchyLint.Proofs.Validation.Messages

/-!
# Validating one value after another

A validator forgets the diagnostics of a validation before the next one, and its sink never does.
So each validation returns what a new validator would (`returned_eq`), and the sink has received
everything that was returned, in order (`sink_session`). What that leaves in a collector and in a
log follows from one diagnostic at a time.
-/

namespace HierarchyLint

variable {v : Validator} {raws : List Value}

namespace Validator

/-! ## One validation -/

theorem report_eq (v : Validator) (f : Finding) :
    v.report f = { v with
      sink := (f.diagnose? v.config).toList.foldl Sink.receive v.sink
      diagnostics := v.diagnostics ++ (f.diagnose? v.config).toList } := by
  unfold report
  cases f.diagnose? v.config with
  | none => simp
  | some d => rfl

theorem foldl_report (v : Validator) (fs : List Finding) :
    fs.foldl report v = { v with
      sink := (fs.filterMap (Finding.diagnose? v.config)).foldl Sink.receive v.sink
      diagnostics := v.diagnostics ++ fs.filterMap (Finding.diagnose? v.config) } := by
  induction fs generalizing v with
  | nil => simp
  | cons f fs ih =>
    rw [List.foldl_cons, ih, report_eq, List.filterMap_cons]
    cases f.diagnose? v.config with
    | none => simp
    | some d => simp

/-- A validation forgets the diagnostics before it, and the sink receives those that it keeps. -/
theorem validate_eq (v : Validator) (raw : Value) :
    v.validate raw = { v with
      sink := (HierarchyLint.validate v.config raw).foldl Sink.receive v.sink
      diagnostics := HierarchyLint.validate v.config raw } := by
  rw [validate, foldl_report, List.nil_append]
  rfl

/-! ## One validation after another -/

def returned (v : Validator) : List Value → List (List Diagnostic)
  | [] => []
  | raw :: raws => (v.validate raw).diagnostics :: (v.validate raw).returned raws

theorem returned_eq (v : Validator) (raws : List Value) :
    v.returned raws = raws.map (HierarchyLint.validate v.config) := by
  induction raws generalizing v with
  | nil => rfl
  | cons raw raws ih => rw [returned, ih, validate_eq, List.map_cons]

theorem sink_session (v : Validator) (raws : List Value) :
    (raws.foldl validate v).sink = (v.returned raws).flatten.foldl Sink.receive v.sink := by
  induction raws generalizing v with
  | nil => rfl
  | cons raw raws ih =>
    rw [List.foldl_cons, ih, returned, List.flatten_cons, List.foldl_append, validate_eq]

end Validator

/-! ## What the sinks hold -/

theorem Sink.foldl_receive_collector (kept ds : List Diagnostic) :
    ds.foldl receive (.collector ⟨kept⟩) = .collector ⟨kept ++ ds⟩ := by
  induction ds generalizing kept with
  | nil => simp
  | cons d ds ih => rw [List.foldl_cons, receive, Collector.receive, ih, List.append_assoc]; rfl

theorem Sink.foldl_receive_log (threshold : Int) (records : List LogRecord)
    (ds : List Diagnostic) :
    ds.foldl receive (.log ⟨threshold, records⟩) = .log ⟨threshold, records
      ++ (ds.filter fun d => threshold ≤ d.severity.logLevel).map LogRecord.ofDiagnostic⟩ := by
  induction ds generalizing records with
  | nil => simp
  | cons d ds ih =>
    rw [List.foldl_cons, receive, Log.receive]
    by_cases hd : threshold ≤ d.severity.logLevel
    · have hlevel : threshold ≤ (LogRecord.ofDiagnostic d).level := hd
      rw [if_pos hlevel, ih, List.filter_cons_of_pos (by simpa using hd), List.map_cons,
        List.append_assoc, List.singleton_append]
    · have hlevel : ¬ threshold ≤ (LogRecord.ofDiagnostic d).level := hd
      rw [if_neg hlevel, ih, List.filter_cons_of_neg (by simpa using hd)]

theorem map_ofDiagnostic {ds : List Diagnostic} (hds : ∀ d ∈ ds, d.Writable) :
    (ds.map LogRecord.ofDiagnostic).map (fun r => (r.level, r.template, r.message))
      = ds.map fun d => (d.severity.logLevel, d.template, d.message) := by
  rw [List.map_map]
  refine List.map_congr_left fun d hd => ?_
  rw [Function.comp_apply, (hds d hd).message_ofDiagnostic]
  rfl

namespace Validator

theorem writable_of_mem_returned {d : Diagnostic} (hd : d ∈ (v.returned raws).flatten) :
    d.Writable := by
  rw [returned_eq, ← List.flatMap_def] at hd
  obtain ⟨raw, -, hd⟩ := List.mem_flatMap.1 hd
  exact writable_of_mem_validate hd

/-- A validator keeps the validations of a session apart: each returns what it returns for a new
validator, while a collector gathers all that is returned, and a log the part that reaches its
threshold, with the messages that the diagnostics have. All of these messages can be written. -/
theorem session_keeps_validations_apart (v : Validator) (raws : List Value) :
    v.returned raws
        = raws.map (fun raw => (validate { config := v.config } raw).diagnostics) ∧
      (∀ kept, v.sink = .collector ⟨kept⟩ →
        (raws.foldl validate v).sink = .collector ⟨kept ++ (v.returned raws).flatten⟩) ∧
      (∀ threshold old, v.sink = .log ⟨threshold, old⟩ →
        ∃ new, (raws.foldl validate v).sink = .log ⟨threshold, old ++ new⟩ ∧
          new.map (fun r => (r.level, r.template, r.message))
            = ((v.returned raws).flatten.filter fun d => threshold ≤ d.severity.logLevel).map
              fun d => (d.severity.logLevel, d.template, d.message)) ∧
      ∀ d ∈ (v.returned raws).flatten, ∃ text, d.message = .ok text := by
  refine ⟨?_, fun kept hsink => ?_, fun threshold old hsink => ?_,
    fun d hd => (writable_of_mem_returned hd).exists_message⟩
  · rw [returned_eq]
    exact List.map_congr_left fun raw _ => by rw [validate_eq]
  · rw [sink_session, hsink, Sink.foldl_receive_collector]
  · rw [sink_session, hsink, Sink.foldl_receive_log]
    exact ⟨_, rfl, map_ofDiagnostic fun d hd =>
      writable_of_mem_returned (List.mem_filter.1 hd).1⟩

/-- A value that is no mapping, and a mapping with percent signs in a name and in references. -/
def percentValues : List Value :=
  [.str "%s", .map [(.str "%", .map [(.str "fulfills", .list [.str "%s", .str "%[%%]"])])]]

/-- The warning about the short name does not reach the threshold. -/
theorem session_of_percentValues :
    (returned { sink := .log ⟨40, []⟩ } percentValues).map List.length = [1, 3] ∧
      ∃ new, (percentValues.foldl validate { sink := .log ⟨40, []⟩ }).sink = .log ⟨40, new⟩ ∧
        new.map (fun r => (r.level, r.message)) =
          [(40, .ok "The hierarchy definition should be an object."),
            (40, .ok "The type % says it fulfills the type %s, but that type is not defined"),
            (40, .ok "The type % creates a circular dependency: % fulfills %[%%]")] := by
  obtain ⟨-, -, hlog, -⟩ :=
    session_keeps_validations_apart { sink := .log ⟨40, []⟩ } percentValues
  obtain ⟨new, hsink, hnew⟩ := hlog 40 [] rfl
  refine ⟨?_, new, hsink, ?_⟩
  · decide +kernel
  · have hmessages := congrArg (List.map fun r => (r.1, r.2.2)) hnew
    rw [List.map_map, List.map_map] at hmessages
    refine hmessages.trans ?_
    decide +kernel

end Validator

end HierarchyLint
