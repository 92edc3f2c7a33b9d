import EvmAssigner.Assertions
import EvmAssigner.RwDecode

namespace EvmAssigner

/-- The trace that a frame hands over in an event, at any depth. -/
def Event.handed : Event → Option (List rw_operation)
  | .handle_rw rw_trace => some rw_trace
  | .nested e => handed e
  | _ => none

/-- The traces of the frames of a run, in the order in which they are handed over. -/
def handed_traces (es : List Event) : List (List rw_operation) := es.filterMap Event.handed

/-- Nothing is asked of the stack, and nothing is left there. -/
def Opcode.Idle (op : Opcode) : Prop := stack_height_required op = 0 ∧ stack_height_change op = 0

instance {op : Opcode} : Decidable op.Idle := inferInstanceAs (Decidable (_ ∧ _))

/-- The instruction does not pass `check_requirements`, or has nothing to do with the stack. -/
def Step.Idle (step : Step) : Prop :=
  ∀ op ∈ Opcode.of_byte step.byte,
    (check_requirements step.state.cost_table step.gas step.stack_top (some op)).1 = .SUCCESS → op.Idle

instance {step : Step} : Decidable step.Idle :=
  inferInstanceAs (Decidable (∀ op ∈ Opcode.of_byte step.byte, _ → _))

/-- A nested frame does not use its stack. -/
def Event.Idles : Event → Prop
  | .nested e => ∀ step ∈ e.announced, step.Idle
  | _ => True

instance {e : Event} : Decidable e.Idles := by
  unfold Event.Idles
  casesm Event <;> first | exact Option.decidableForallMem _ | infer_instance

/-- A frame that does not use its stack leaves nothing in the table. -/
abbrev idle : Action.Contract Event :=
  ⟨fun e => ∀ step ∈ e.announced, step.Idle, fun e => ∀ rw_trace ∈ e.handed, rw_trace = []⟩

/-- What such a frame can execute before `PRAGUE`. -/
theorem idle_opcodes (op : Opcode) (idle : op.Idle)
    (defined : has_const_gas_cost op = true ∨ 0 ≤ legacy_cost_table .LATEST_STABLE op) :
    op ∈ [.STOP, .JUMPDEST, .PRINTF, .INVALID] := by
  revert idle defined
  cases op with
  | PUSH n | DUP n | SWAP n | LOG n =>
    revert n
    decide
  | _ => decide

instance : CodeQuiet idle := ⟨fun _ _ => ⟨by simp [Event.announced], by simp [Event.handed]⟩⟩

instance : Steady idle where
  vector_access _ _ := ⟨by simp [Event.announced], by simp [Event.handed]⟩
  assertion_failed _ := ⟨by simp [Event.announced], by simp [Event.handed]⟩

section
variable {H : Type} [Ethash] {host : Host H} {exec : Exec H} {h pos gas left : Int} {op : Opcode} {code : Bytes}

/-- A nested frame that has not used its stack. -/
structure Idled (code : Bytes) (s : ExecutionState) : Prop where
  revision : s.rev = .LATEST_STABLE
  legacy : s.analysis = analyze_legacy code
  untraced : s.rw_trace = []

theorem idle_step (step : op ∈ [.STOP, .JUMPDEST, .PRINTF, .INVALID]) (idled : Idled code exec.state) :
    Action.wlp idle (invoke_impl (map_opcodes host op) pos h left) (fun _ e => Idled code e.state) exec := by
  have ended (status : StatusCode) : Idled code (exec.state.set_status status) :=
    ⟨idled.revision, idled.legacy, idled.untraced⟩
  simp only [List.mem_cons, List.not_mem_nil, or_false] at step
  rcases step with rfl | rfl | rfl | rfl
  · simpa [map_opcodes, invoke_impl, stop, stop_impl] using ended _
  · simpa [map_opcodes, invoke_impl, jumpdest] using idled
  · simpa [map_opcodes, invoke_impl] using ended _
  · simpa [map_opcodes, invoke_impl, invalid, stop_impl] using ended _

theorem Idled.turn (idled : Idled code exec.state) :
    Action.wlp idle (turn host (legacy_cost_table .LATEST_STABLE) pos h gas)
      (fun _ e => Idled code e.state) exec := by
  have table : exec.state.cost_table = legacy_cost_table .LATEST_STABLE := by
    rw [ExecutionState.cost_table, idled.revision, idled.legacy]
    rfl
  have ended (status : StatusCode) : Idled code (exec.state.set_status status) :=
    ⟨idled.revision, idled.legacy, idled.untraced⟩
  unfold EvmAssigner.turn invoke requirement_assertions
  simp only [Action.wlp_bind, wlp_on_state, Action.wlp_get, wlp_read_code, wlp_assert_that]
  refine Action.wlp_emit.mpr fun idles => ⟨by simp [Event.handed], ?_⟩
  replace idles : Step.Idle ⟨exec.state.analysis.code_at pos, h, gas, exec.state⟩ := idles _ rfl
  cases name : Opcode.of_byte (exec.state.analysis.code_at pos) with
  | none => simpa using ⟨fun _ => ended _, fun _ => ended _⟩
  | some op =>
    by_cases success : (check_requirements (legacy_cost_table .LATEST_STABLE) gas h (some op)).1 = .SUCCESS
    · have idle_op : op.Idle := idles op name (by rwa [table])
      have meets := (check_requirements_success success).1
      simp only [success, ne_eq, not_true_eq_false, if_false, Action.wlp_bind, Action.wlp_pure]
      exact idle_step (idle_opcodes op idle_op meets.defined) idled
    · simpa [success] using ended _

theorem Idled.dispatch {fuel : Nat} (idled : Idled code exec.state) :
    Action.wlp idle (dispatch host (legacy_cost_table .LATEST_STABLE) fuel pos h gas)
      (fun _ e => Idled code e.state) exec := by
  induction fuel generalizing pos h gas exec with
  | zero => exact Action.wlp_unfinished
  | succ fuel ih =>
    rw [EvmAssigner.dispatch, Action.wlp_bind]
    refine idled.turn.mono fun next e idled' => ?_
    cases next.code_it with
    | none => exact Action.wlp_pure.mpr idled'
    | some code_it' => exact ih idled'

end

section
variable {F : Type} [Field F] [DecidableEq F] [Ethash] [Crypto3] {w : World F} {fuel circuit : Nat} {rev : Revision}
  {msg : Message} {code : Bytes} {P : Action.Contract Event}

/-- Only the outermost frame has a trace, if the others do not use their stacks. -/
theorem idle_evaluate : Action.wlp idle (evaluate fuel .LATEST_STABLE msg code) (fun _ _ => True) w := by
  cases fuel with
  | zero => exact Action.wlp_unfinished
  | succ fuel =>
    have analysed : analyze .LATEST_STABLE code = some (analyze_legacy code) := if_pos (Or.inl (by decide))
    simp only [evaluate, Action.wlp_bind, Action.wlp_get, analysed]
    cases zkevm_circuits_map.lookup w.target_circuit with
    | none => exact Action.wlp_pure.mpr trivial
    | some circuit =>
      have no_data : (analyze_legacy code).eof_header.get_data code = some [] := rfl
      simp only [no_data, run_code, Action.wlp_bind]
      refine (wlp_start_frame fun _ => by simp [Event.handed]).mono fun heap w' _ => ?_
      rw [run_frame, Action.wlp_zoom]
      simp only [Action.wlp_bind, Action.wlp_get, Action.wlp_pure]
      have start : Idled code (⟨.new msg .LATEST_STABLE code [] 0 (analyze_legacy code) heap, w'⟩ :
        Exec (World F)).state := ⟨rfl, rfl, rfl⟩
      refine start.dispatch.mono fun _ e idled => wlp_end_frame ?_ fun _ => by simp [Event.handed]
      simp [Event.handed, idled.untraced]

end

/-- As long as the frames below do not use their stacks, a frame hears of empty traces only. -/
abbrev idle_below : Action.Contract Event := ⟨Event.Idles, fun e => ∀ rw_trace ∈ e.handed, rw_trace = []⟩

instance : CodeQuiet idle_below := ⟨fun _ _ => ⟨trivial, by simp [Event.handed]⟩⟩

instance : Obliging idle_below where
  assertion_failed _ := ⟨trivial, by simp [Event.handed]⟩
  vector_access _ _ := ⟨trivial, by simp [Event.handed]⟩
  stack_access _ := ⟨trivial, by simp [Event.handed]⟩
  memory_within _ := ⟨trivial, by simp [Event.handed]⟩
  storage_entry _ := by simp [Event.handed]
  light_failure _ := by simp [Event.handed]
  host_call _ _ _ := by simp [Event.handed]
  host_output _ _ _ := by simp [Event.handed]

instance : Plain idle_below where
  memory_access _ _ _ := ⟨trivial, by simp [Event.handed]⟩
  memory_entry _ _ := by simp [Event.handed]

/-- The traces so far, and the one that is handed over in an event. -/
def hand (traces : List (List rw_operation)) (e : Event) : List (List rw_operation) :=
  traces ++ e.handed.toList

theorem hand_none {traces : List (List rw_operation)} {e : Event} (none : e.handed = none) :
    hand traces e = traces := by
  rw [hand, none, Option.toList_none, List.append_nil]

/-- Only what is handed over in an event is of interest. -/
theorem hand_aloof : Aloof any_event hand :=
  .of_local (fun e alone => ⟨trivial, fun _ => hand_none (by cases e <;> first | rfl | contradiction)⟩)
    (fun _ => Iff.rfl) (fun _ => Iff.rfl) fun _ _ => rfl

theorem foldl_hand (traces : List (List rw_operation)) (es : List Event) :
    es.foldl hand traces = traces ++ handed_traces es := by
  induction es generalizing traces with
  | nil => simp [handed_traces]
  | cons e es ih =>
    rw [List.foldl_cons, ih, hand, List.append_assoc, handed_traces, handed_traces]
    cases handed : e.handed with
    | none => rw [List.filterMap_cons_none handed]; rfl
    | some rw_trace => rw [List.filterMap_cons_some handed]; rfl

/-- At most one of the frames has a trace that is not empty. -/
def OneTraced (traces : List (List rw_operation)) : Prop :=
  traces.Pairwise fun rw_trace rw_trace' => rw_trace = [] ∨ rw_trace' = []

theorem OneTraced.of_empty {traces : List (List rw_operation)} (empty : ∀ rw_trace ∈ traces, rw_trace = []) :
    OneTraced traces :=
  List.Pairwise.imp_of_mem (fun member _ _ => Or.inl (empty _ member)) (List.pairwise_of_forall fun _ _ => trivial)

theorem OneTraced.hand {traces : List (List rw_operation)} (empty : ∀ rw_trace ∈ traces, rw_trace = [])
    (e : Event) : OneTraced (hand traces e) := by
  refine List.pairwise_append.mpr ⟨OneTraced.of_empty empty, ?_, fun rw_trace member _ _ =>
    Or.inl (empty rw_trace member)⟩
  cases e.handed <;> simp

/-- No trace is handed over. -/
abbrev no_traces : Action.Contract Event := ⟨fun _ => True, fun e => e.handed = none⟩

theorem no_traces_aloof : Aloof no_traces fun (_ : Unit) _ => () :=
  .of_local (fun e alone => ⟨by cases e <;> first | rfl | contradiction, fun _ => rfl⟩) (fun _ => Iff.rfl)
    (fun _ => Iff.rfl) fun _ _ => rfl

/-- Nothing is assumed beyond what the frames below do. -/
abbrev idles : Action.Contract Event := ⟨Event.Idles, fun _ => True⟩

theorem idle_track {σ α : Type} {m : Action Event σ α} {s : σ} {traces : List (List rw_operation)}
    (empty : ∀ rw_trace ∈ traces, rw_trace = []) (quiet : Action.wlp idle_below m (fun _ _ => True) s) :
    Action.track idles hand m (fun _ _ traces' => ∀ rw_trace ∈ traces', rw_trace = []) s traces := by
  have kept := Action.track_of_wlp (C := idles) (u := hand) (g := traces)
    (p := fun traces => ∀ rw_trace ∈ traces, rw_trace = []) (D := idle_below) (fun _ idles => idles)
    (fun _ _ => trivial) ?_ quiet
  · exact kept.mono fun _ _ traces' ⟨_, same⟩ => same.symm ▸ empty
  · intro e traces handed
    simp only [hand, List.mem_append, Option.mem_toList, or_imp, forall_and, eq_iff_iff]
    exact ⟨fun both => both.1, fun empty => ⟨empty, handed⟩⟩

section
variable {F : Type} [Field F] [DecidableEq F] {w : World F} {fuel circuit : Nat} {rev : Revision}
  {msg : Message} {code : Bytes}

theorem one_traced_end_frame {gas : Int} {state : ExecutionState} {traces : List (List rw_operation)}
    (empty : ∀ rw_trace ∈ traces, rw_trace = []) :
    Action.track idles hand (end_frame circuit gas state) (fun _ _ => OneTraced) w traces := by
  have same (traces : List (List rw_operation)) : hand traces (.assertion_failed .output) = traces :=
    List.append_nil traces
  have handed : Action.track idles hand (handle_rw state.rw_trace) (fun _ _ => OneTraced) w traces := by
    simp only [handle_rw, Action.track_bind, Action.track_get]
    cases w.rw_table with
    | none => exact Action.track_pure.mpr (.of_empty empty)
    | some rw_table =>
      simp only [Action.track_bind, Action.track_emit]
      refine fun _ => ⟨trivial, ?_⟩
      cases process_rw_operations state.rw_trace rw_table with
      | none => exact Action.track_unfinished
      | some rw_table' => exact Action.track_modify.mpr (.hand empty _)
  simp only [end_frame, Action.track_ite, Action.track_bind, Action.track_emit, Action.track_pure, same]
  exact ⟨fun _ => handed.mono fun _ _ _ one => ⟨fun _ _ => ⟨trivial, one⟩, fun _ => one⟩,
    fun _ => ⟨fun _ _ => ⟨trivial, .of_empty empty⟩, fun _ => .of_empty empty⟩⟩

theorem bytecode_end_frame {gas : Int} {state : ExecutionState} (only : w.target_circuit = "bytecode") :
    Action.track no_traces (fun (_ : Unit) _ => ()) (end_frame BYTECODE gas state)
      (fun _ w' _ => w'.target_circuit = "bytecode") w () := by
  have off : ¬ BYTECODE &&& RW ≠ 0 := by decide
  simp only [end_frame, off, if_false, Action.track_ite, Action.track_bind, Action.track_emit, Action.track_pure]
  exact ⟨fun _ _ => ⟨rfl, only⟩, fun _ => only⟩

variable [Ethash]

omit [DecidableEq F] in
/-- The table for the bytecode circuit is all that such a run fills. -/
theorem bytecode_host : HostInvariant (F := F) no_traces (fun (_ : Unit) _ => ()) (fun _ => True)
    fun w _ => w.target_circuit = "bytecode" where
  accounts inv _ := ⟨rfl, inv⟩
  sload _ _ _ _ inv _ := ⟨rfl, inv⟩
  sstore _ _ _ _ _ _ inv _ := ⟨rfl, fun _ => ⟨rfl, inv⟩⟩
  tstore _ _ _ _ inv _ := ⟨rfl, inv⟩
  call _ _ inv _ := ⟨rfl, fun _ => inv⟩
  calls _ _ inv _ _ _ := ⟨trivial, inv⟩
  creates _ _ inv _ _ _ := ⟨trivial, inv⟩
  created _ _ _ _ _ _ inv := inv

variable [Crypto3]

theorem one_traced : Action.track idles hand (evaluate fuel rev msg code) (fun _ _ => OneTraced) w [] := by
  cases fuel with
  | zero => exact Action.track_unfinished
  | succ fuel =>
    simp only [evaluate, Action.track_bind, Action.track_get]
    cases zkevm_circuits_map.lookup w.target_circuit with
    | none => exact Action.track_pure.mpr List.Pairwise.nil
    | some circuit =>
      cases analyze rev code with
      | none => exact Action.track_unfinished
      | some analysis =>
        dsimp only
        cases analysis.eof_header.get_data code with
        | none => exact Action.track_unfinished
        | some data =>
          have hosted : Hosted idle_below (vm_host (evaluate (F := F) fuel)) :=
            vm_host_hosted (by simp [Event.handed]) (by simp [Event.handed]) (by simp [Event.handed])
              (by simp [Event.handed]) fun _ _ _ => idle_evaluate
          simp only [run_code, Action.track_bind]
          refine (idle_track (by simp) (wlp_start_frame (by simp [Event.handed]))).mono fun heap w' traces empty => ?_
          refine track_run_frame.mpr ((idle_track empty ?_).mono fun _ _ _ => one_traced_end_frame)
          exact wide_true.dispatch (by simp [Event.handed]) trivial

theorem bytecode_no_traces (only : w.target_circuit = "bytecode") :
    Action.track no_traces (fun (_ : Unit) _ => ()) (evaluate fuel rev msg code)
      (fun _ w' _ => w'.target_circuit = "bytecode") w () := by
  induction fuel generalizing rev msg code w with
  | zero => exact Action.track_unfinished
  | succ fuel ih =>
    have circuit : zkevm_circuits_map.lookup w.target_circuit = some BYTECODE := by
      rw [only]
      rfl
    simp only [evaluate, Action.track_bind, Action.track_get, circuit]
    cases analyze rev code with
    | none => exact Action.track_unfinished
    | some analysis =>
      dsimp only
      cases analysis.eof_header.get_data code with
      | none => exact Action.track_unfinished
      | some data =>
        simp only [run_code, start_frame, handle_bytecode, Action.track_bind, Action.track_get, Action.track_emit,
          Action.track_modify, Action.track_ite, Action.track_pure]
        have ran (w : World F) (heap : Nat → UInt8) (only : w.target_circuit = "bytecode") :
            Action.track no_traces (fun (_ : Unit) _ => ())
              (run_frame (dispatch (vm_host (evaluate fuel)) (get_baseline_cost_table rev analysis.eof_header.version)
                fuel 0 0 msg.gas) (.new msg rev code data 0 analysis heap))
              (fun r w' g' => Action.track no_traces (fun (_ : Unit) _ => ()) (end_frame BYTECODE r.1 r.2)
                (fun _ w' _ => w'.target_circuit = "bytecode") w' g') w () := by
          have start : Kept (fun w (_ : Unit) => w.target_circuit = "bytecode") msg
            (⟨.new msg rev code data 0 analysis heap, w⟩ : Exec (World F)) () := ⟨only, rfl⟩
          refine track_run_frame.mpr ((dispatch_kept no_traces_aloof bytecode_host trivial
            (fun _ _ _ _ _ _ only => ih only) start).mono fun _ _ _ kept => ?_)
          exact bytecode_end_frame kept.host
        exact fun _ => ⟨rfl, fun _ => ran _ _ only, fun _ => ran _ _ only⟩

omit [Crypto3] in
/-- The table is what the traces handed over so far have made of it. -/
theorem records_invariant {t : Assignment F} : EvaluateInvariant any_event hand (fun _ => True)
    fun w traces => w.rw_table = record_all traces t where
  accounts inv _ := ⟨trivial, inv.trans (by rw [hand_none rfl])⟩
  sload _ _ _ _ inv _ := ⟨trivial, inv.trans (by rw [hand_none rfl])⟩
  sstore _ _ _ _ _ _ inv _ := ⟨trivial, fun _ => ⟨trivial, inv.trans (by rw [hand_none rfl, hand_none rfl])⟩⟩
  tstore _ _ _ _ inv _ := ⟨trivial, inv.trans (by rw [hand_none rfl])⟩
  call _ _ inv _ := ⟨trivial, fun _ => inv.trans (by rw [hand_none rfl])⟩
  calls _ _ inv _ _ _ := ⟨trivial, inv.trans (by rw [hand_none rfl])⟩
  creates _ _ inv _ _ _ := ⟨trivial, inv.trans (by rw [hand_none rfl])⟩
  created _ _ _ _ _ _ inv := inv
  allocate inv := inv
  handle_bytecode inv := inv
  handle_rw {w traces rw_table rw_trace} inv present _ := ⟨trivial, fun rw_table' filled => by
    have before : record_all traces t = some rw_table := inv.symm.trans present
    show some rw_table' = record_all (traces ++ [rw_trace]) t
    rw [record_all_append, before, Option.bind_some, record_all, filled]
    rfl⟩

omit [DecidableEq F] [Ethash] [Crypto3] in
theorem ghost_returns {C : Action.Contract Event} {m : Action Event (World F) Result} {w w' : World F}
    {result : Result} {Q : Result → World F → List (List rw_operation) → Prop}
    (tracked : Action.track C hand m Q w []) (assumed : ∀ e ∈ m.events w, C.assumes e)
    (returns : (m w).2 = some (result, w')) : Q result w' (handed_traces (m.events w)) := by
  have held := (Action.wlp.returns tracked assumed returns).2
  rwa [foldl_hand, List.nil_append] at held

/-- The table after a run is the table before it, with one block for each frame of the run. -/
theorem evaluate_records {w w' : World F} {result : Result} {t : Assignment F} (table : w.rw_table = some t)
    (returns : (evaluate fuel rev msg code w).2 = some (result, w')) :
    w'.rw_table = record_all (handed_traces ((evaluate fuel rev msg code).events w)) t :=
  ghost_returns (evaluate_kept hand_aloof (records_invariant (t := t)) trivial table) (fun _ _ => trivial) returns

end

open RwTable

section
variable {F : Type} [Field F] [DecidableEq F]

/-- The frame that handed over the trace at position `frame` wrote row `r`, in a table that was `t` before
the first of them. -/
def WrittenBy (t : Assignment F) (traces : List (List rw_operation)) (frame r : Nat) : Prop :=
  ∃ rw_trace before, traces[frame]? = some rw_trace ∧ record_all (traces.take frame) t = some before ∧
    ∃ i < rw_trace.length, r = row_index (start_row_index before) i

/-- Two rows for the stack, or for the memory, cannot be told apart. -/
structure Collide (t : Assignment F) (r r' : Nat) : Prop where
  op : t.witness OP r = (STACK_OP.toNat : F) ∨ t.witness OP r = (MEMORY_OP.toNat : F)
  same_op : t.witness OP r = t.witness OP r'
  same_id : t.witness ID r = t.witness ID r'
  same_address : t.witness ADDRESS r = t.witness ADDRESS r'

/-- No two rows of different frames collide in the table `t'` after a run. -/
def FramesApart (t t' : Assignment F) (traces : List (List rw_operation)) : Prop :=
  ∀ frame frame' r r', frame ≠ frame' → WrittenBy t traces frame r → WrittenBy t traces frame' r' →
    ¬ Collide t' r r'

theorem OneTraced.apart {t t' : Assignment F} {traces : List (List rw_operation)} (one : OneTraced traces) :
    FramesApart t t' traces := by
  rintro frame frame' r r' differ ⟨rw_trace, _, at_frame, _, i, within, _⟩
    ⟨rw_trace', _, at_frame', _, i', within', _⟩ _
  obtain ⟨bound, rfl⟩ := List.getElem?_eq_some_iff.mp at_frame
  obtain ⟨bound', rfl⟩ := List.getElem?_eq_some_iff.mp at_frame'
  have empty : traces[frame] = [] ∨ traces[frame'] = [] := by
    have pairs := List.pairwise_iff_getElem.mp one
    rcases lt_or_gt_of_ne differ with before | behind
    · exact pairs frame frame' bound bound' before
    · exact (pairs frame' frame bound' bound behind).symm
  rcases empty with empty | empty
  · simp [empty] at within
  · simp [empty] at within'

variable [Ethash] [Crypto3]

end

/-- Account 1, and an empty table. -/
def creating_world : World (ZMod 65537) where
  accounts := Function.update (fun _ => none) 1 (some {})
  rw_table := some Assignment.empty

/-- Account 1 runs `code`. -/
def creating (code : Bytes) : List Event × Option (Result × World (ZMod 65537)) :=
  letI := no_hash
  letI : Crypto3 := ⟨fun _ => []⟩
  evaluate 20 .SHANGHAI { gas := 100000, recipient := 1 } code creating_world

end EvmAssigner
