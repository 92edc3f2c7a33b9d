import EvmAssigner.EofSoundness
import EvmAssigner.MoreFuel

namespace EvmAssigner
variable {H : Type}

/-- What is assumed, and what is promised, of the positions the code is read at. -/
def code_reads (assumed ensured : Int → Prop) : Action.Contract Event where
  assumes
    | .code_access index _ => assumed index
    | _ => True
  ensures
    | .code_access index _ => ensured index
    | _ => True

instance (assumed ensured : Int → Prop) : Unwatched (code_reads assumed ensured) where
  assertion_failed _ := ⟨trivial, trivial⟩
  vector_access _ _ := ⟨trivial, trivial⟩
  step _ _ _ _ := trivial
  nested _ := trivial
  stack_access _ := ⟨trivial, trivial⟩
  memory_access _ _ _ := ⟨trivial, trivial⟩
  memory_within _ := ⟨trivial, trivial⟩
  storage_entry _ := trivial
  light_failure _ := trivial
  host_call _ _ _ := trivial
  host_output _ _ _ := trivial
  memory_entry _ _ := trivial

/-- A byte of the container. -/
def Inside (container : Bytes) (index : Int) : Prop := 0 ≤ index ∧ index < container.length

section
variable {P : Action.Contract Event} [Unwatched P] {s : ExecutionState} {h pos : Int} {Len n : Nat}

/-- The bytes behind a position may be read. -/
def Readable (P : Action.Contract Event) (s : ExecutionState) (pos : Int) (n : Nat) : Prop :=
  ∀ k < n, P.Ignores (.code_access (s.analysis.offset + (pos + k)) s.analysis.buffer.length)

omit [Unwatched P] in
theorem Readable.at {k : Nat} {index : Int} (readable : Readable P s pos n) (within : k < n)
    (at_index : index = pos + k) :
    P.Ignores (.code_access (s.analysis.offset + index) s.analysis.buffer.length) := by
  rw [at_index]
  exact readable k within

theorem push_reads (data : Readable P s (pos + 1) (max Len (bytes_read (Len % 8)))) :
    Action.wlp P (push Len h pos) (fun _ _ => True) s := by
  have words (r : Word) : Action.wlp P (load_full_words r (pos + 1 + (Len % 8 : Nat)) (Len / 8))
      (fun r s' => Action.wlp P (stack_set (h + 1) 0 r) (fun _ s' => Action.wlp P
        (Action.forEach (fun i : Nat => record_stack (h + 1) i true) (List.range (Len / 32 + Len % 32)))
        (fun _ _ => True) s') s') s := by
    refine wlp_load_full_words_ignored (fun k within => data.at (k := Len % 8 + k) (by omega) (by omega)) fun r' => ?_
    refine wlp_stack_set.mpr ?_
    exact Action.wlp_forEach (I := fun _ _ => True) (fun _ _ _ s' _ _ => wlp_record_stack.mpr trivial) trivial
  simp only [push, Action.wlp_bind, Action.wlp_ite, Action.wlp_pure]
  constructor
  · exact fun _ => wlp_load_partial_ignored (fun k within => data.at (by omega) rfl) words
  · exact fun _ => words 0

omit [Unwatched P] in
theorem read_uint16_be_reads {Q : Nat → ExecutionState → Prop} (data : Readable P s pos 2) (each : ∀ v, Q v s) :
    Action.wlp P (read_uint16_be pos) Q s := by
  simp only [read_uint16_be, Action.wlp_bind, Action.wlp_pure]
  refine (wlp_read_code_ignored (data.at (k := 0) (by omega) (by omega))).mpr ?_
  exact (wlp_read_code_ignored (data.at (k := 1) (by omega) (by omega))).mpr (each _)

omit [Unwatched P] in
theorem read_int16_be_reads {Q : Int → ExecutionState → Prop} (data : Readable P s pos 2) (each : ∀ v, Q v s) :
    Action.wlp P (read_int16_be pos) Q s := by
  simp only [read_int16_be, Action.wlp_bind, Action.wlp_pure]
  exact read_uint16_be_reads data fun _ => each _

theorem dupn_reads (data : Readable P s (pos + 1) 1) : Action.wlp P (dupn h pos) (fun _ _ => True) s := by
  simp only [dupn, Action.wlp_bind]
  refine (wlp_read_code_ignored (data.at (k := 0) (by omega) (by omega))).mpr ?_
  simp [dup_slot, push_word, fail_with]

theorem swapn_reads (data : Readable P s (pos + 1) 1) : Action.wlp P (swapn h pos) (fun _ _ => True) s := by
  simp only [swapn, Action.wlp_bind]
  refine (wlp_read_code_ignored (data.at (k := 0) (by omega) (by omega))).mpr ?_
  simp [fail_with]

theorem dataloadn_reads (data : Readable P s (pos + 1) 2) : Action.wlp P (dataloadn h pos) (fun _ _ => True) s := by
  simp only [dataloadn, Action.wlp_bind, Action.wlp_get]
  refine read_uint16_be_reads data fun index => ?_
  simp [push_word, Action.wlp_emit_ignored (VectorQuiet.vector_access _ _), -Action.wlp_emit]

omit [Unwatched P] in
theorem rjump_reads (data : Readable P s (pos + 1) 2) : Action.wlp P (rjump h pos) (fun _ _ => True) s := by
  simp only [rjump, Action.wlp_bind, Action.wlp_pure]
  exact read_int16_be_reads data fun _ => trivial

theorem rjumpi_reads (data : Readable P s (pos + 1) 2) : Action.wlp P (rjumpi h pos) (fun _ _ => True) s := by
  simp only [rjumpi, Action.wlp_bind, Action.wlp_ite, Action.wlp_pure, wlp_record_stack, wlp_stack_get, implies_true,
    and_true]
  exact fun _ => rjump_reads data

theorem rjumpv_reads (data : Readable P s (pos + 1) (1 + ((s.analysis.code_at (pos + 1)).toNat + 1) * 2)) :
    Action.wlp P (rjumpv h pos) (fun _ _ => True) s := by
  have index_lt := (s.analysis.code_at (pos + 1)).toNat_lt
  simp only [rjumpv, Action.wlp_bind, Action.wlp_ite, Action.wlp_pure, wlp_record_stack, wlp_stack_get]
  have count : P.Ignores (.code_access (s.analysis.offset + (pos + 1)) s.analysis.buffer.length) :=
    data.at (k := 0) (by omega) (by omega)
  refine (wlp_read_code_ignored (s := s.record h 0 false) count).mpr ⟨fun _ => trivial, fun small => ?_⟩
  generalize ((s.record h 0 false).stack_space (h - 1 - 0)).to_uint64 = case at small ⊢
  have small' : case ≤ (s.analysis.code_at (pos + 1)).toNat := not_lt.mp small
  exact read_int16_be_reads (fun k within => data.at (k := 1 + case * 2 + k) (by omega) (by omega)) fun _ => trivial

theorem enter_section_reads {Q : Option EOF1Header → ExecutionState → Prop} {index : Nat} (each : ∀ v s', Q v s') :
    Action.wlp P (enter_section index h) Q s := by
  simp only [enter_section, Action.wlp_bind, Action.wlp_get,
    Action.wlp_emit_ignored (VectorQuiet.vector_access _ _), Action.wlp_ite, Action.wlp_modify, Action.wlp_pure]
  exact ⟨fun _ => each _ _, fun _ => each _ _⟩

theorem callf_reads (data : Readable P s (pos + 1) 2) : Action.wlp P (callf h pos) (fun _ _ => True) s := by
  simp only [callf, Action.wlp_bind]
  refine read_uint16_be_reads data fun index => enter_section_reads fun header s' => ?_
  cases header with
  | none => exact Action.wlp_pure.mpr trivial
  | some header =>
    simp [section_start, fail_with, Action.wlp_emit_ignored (VectorQuiet.vector_access _ _), -Action.wlp_emit]

theorem jumpf_reads (data : Readable P s (pos + 1) 2) : Action.wlp P (jumpf h pos) (fun _ _ => True) s := by
  simp only [jumpf, Action.wlp_bind]
  refine read_uint16_be_reads data fun index => enter_section_reads fun header s' => ?_
  cases header with
  | none => exact Action.wlp_pure.mpr trivial
  | some header => simp [section_start, Action.wlp_emit_ignored (VectorQuiet.vector_access _ _), -Action.wlp_emit]

end

/-- A push whose load is wider than its data, by more than the opcode behind it. -/
def Opcode.over_wide (op : Opcode) : Prop := op = .PUSH 4 ∨ op = .PUSH 5

section
variable {P : Action.Contract Event} [Unwatched P] [Ethash] {host : Host H} {exec : Exec H} {op : Opcode}
  {h left start : Int} {code : Bytes} {types : List EOFCodeType} {data_size i : Nat}

theorem free_reads (free : op.reads_code = false) :
    Action.wlp P (invoke_impl (map_opcodes host op) (start + i) h left) (fun _ _ => True) exec := by
  have keeps : (map_opcodes host op).Keeps P (start + i) h left (fun _ => True) exec :=
    wide_true.step (fun reads => by simp [free] at reads) trivial
  exact (keeps.ensures fun _ inv => inv).invoke_impl.mono fun _ _ _ => trivial

/-- An instruction of a validated section reads up to the next opcode at most, but for the over-wide loads. -/
theorem eof_reads (valid : InstructionValid code types data_size (get_baseline_cost_table .PRAGUE 1) i)
    (inside : Readable P exec.state start code.length)
    (reads : ∀ k < code.length, exec.state.analysis.code_at (start + k) = code.getD k 0)
    (ends : falls_through (op_at code i) → next_at code i < code.length)
    (wide : (op_at code i).over_wide → Readable P exec.state (start + i + 1) 8) :
    Action.wlp P (invoke_impl (map_opcodes host (op_at code i)) (start + i) h left) (fun _ _ => True) exec := by
  have whole := valid.whole
  have data {n : Nat} (upper : i + 1 + n ≤ code.length) : Readable P exec.state (start + i + 1) n :=
    fun k within => inside.at (k := i + 1 + k) (by omega) (by omega)
  cases at_i : op_at code i with
  | PUSH n =>
    have behind : next_at code i = i + (n.val + 1) + 1 := next_at_other at_i (by simp)
    have next := ends (by rw [at_i]; rfl)
    refine wlp_code (wlp_on_state.mpr (push_reads ?_))
    by_cases over_wide : (Opcode.PUSH n).over_wide
    · have far := wide (at_i ▸ over_wide)
      rcases over_wide with same | same
      · obtain rfl := Opcode.PUSH.inj same
        exact far
      · obtain rfl := Opcode.PUSH.inj same
        exact far
    · have five : n.val ≠ 4 := fun same => over_wide (Or.inl (congrArg Opcode.PUSH (Fin.ext same)))
      have six : n.val ≠ 5 := fun same => over_wide (Or.inr (congrArg Opcode.PUSH (Fin.ext same)))
      have least : bytes_read ((n.val + 1) % 8) ≤ n.val + 2 := by
        unfold bytes_read
        split_ifs <;> omega
      exact data (by omega)
  | DUPN =>
    have behind : next_at code i = i + 1 + 1 := next_at_other at_i (by simp)
    exact wlp_code (wlp_on_state.mpr (dupn_reads (data (by omega))))
  | SWAPN =>
    have behind : next_at code i = i + 1 + 1 := next_at_other at_i (by simp)
    exact wlp_code (wlp_on_state.mpr (swapn_reads (data (by omega))))
  | DATALOADN =>
    have behind : next_at code i = i + 2 + 1 := next_at_other at_i (by simp)
    exact wlp_code (wlp_on_state.mpr (dataloadn_reads (data (by omega))))
  | RJUMP =>
    have behind : next_at code i = i + 2 + 1 := next_at_other at_i (by simp)
    exact wlp_code (wlp_on_state.mpr (rjump_reads (data (by omega))))
  | RJUMPI =>
    have behind : next_at code i = i + 2 + 1 := next_at_other at_i (by simp)
    exact wlp_code (wlp_on_state.mpr (rjumpi_reads (data (by omega))))
  | RJUMPV =>
    have behind : next_at code i = i + (1 + ((code.getD (i + 1) 0).toNat + 1) * 2) + 1 := by
      rw [next_at, at_i]
      rfl
    have count : exec.state.analysis.code_at (start + i + 1) = code.getD (i + 1) 0 := by
      rw [← reads (i + 1) (by omega)]
      congr 1
      omega
    refine wlp_code (wlp_on_state.mpr (rjumpv_reads ?_))
    rw [count]
    exact data (by omega)
  | CALLF =>
    have behind : next_at code i = i + 2 + 1 := next_at_other at_i (by simp)
    exact wlp_code (wlp_on_state.mpr (callf_reads (data (by omega))))
  | JUMPF =>
    have behind : next_at code i = i + 2 + 1 := next_at_other at_i (by simp)
    exact wlp_code (wlp_on_state.mpr (jumpf_reads (data (by omega))))
  | LOG n | DUP n | SWAP n => exact free_reads rfl
  | _ => exact free_reads rfl

end

/-- The instruction that is about to be executed is such a push, and what it loads goes beyond the container. -/
def Config.OverReads (cost_table : Opcode → Int) (container : Bytes) (c : Config H) : Prop :=
  ∃ pos op, c.code_it = some pos ∧ c.opcode = some op ∧ op.over_wide ∧
    (check_requirements cost_table c.gas c.stack_top (some op)).1 = .SUCCESS ∧
    (container.length : Int) ≤ c.exec.state.analysis.offset + (pos + 8)

/-- A load that reads a byte outside does not come to an end if all bytes are inside. -/
theorem wlp_load_partial_outside {s : ExecutionState} {r : Word} {data : Int} {len i k : Nat} {inside : Int → Prop}
    {Q : Word → ExecutionState → Prop} (within : k < bytes_read len)
    (outside : ¬ inside (s.analysis.offset + (data + k))) :
    Action.wlp (code_reads inside fun _ => True) (load_partial_data r data len i) Q s := by
  simp only [load_partial_data, Action.wlp_bind, Action.wlp_get]
  refine (Action.wlp_forEach (I := fun done _ => done.length ≤ k) ?_ (Nat.zero_le _)).mono ?_
  · intro done k' rest s' split before
    obtain ⟨at_k, _⟩ := range_split split
    refine Action.wlp_emit.mpr fun assumed => ⟨trivial, ?_⟩
    have other : k' ≠ k := by
      rintro rfl
      exact outside assumed
    rw [List.length_append, List.length_singleton]
    omega
  · intro _ _ all
    rw [List.length_range] at all
    omega

theorem push_outside {s : ExecutionState} {h pos : Int} {Len : Nat} {inside : Int → Prop}
    {Q : Option Int → ExecutionState → Prop} (wide : Len = 5 ∨ Len = 6)
    (outside : ¬ inside (s.analysis.offset + (pos + 8))) :
    Action.wlp (code_reads inside fun _ => True) (push Len h pos) Q s := by
  have part : Len % 8 ≠ 0 := by omega
  have last : 7 < bytes_read (Len % 8) := by
    rcases wide with rfl | rfl
    · decide
    · decide
  simp only [push, Action.wlp_bind, Action.wlp_ite, part, ne_eq, not_false_eq_true, true_implies, not_true_eq_false,
    false_implies, and_true]
  refine wlp_load_partial_outside last ?_
  rwa [show pos + 1 + ((7 : Nat) : Int) = pos + 8 by omega]

section
variable [Ethash] {host : Host H} {container : Bytes} {header : EOF1Header} {heights : Nat → Nat → Int}
  {analysis : CodeAnalysis} {data : Bytes} {frames : List CodeFrame} {c : Config H} {pos : Int}
  (typed : ContainerTyped container header heights) (located : Located container header analysis data)
  (placed : ∀ idx < header.types.length, ∀ k < (header.get_code container idx).length,
    Inside container (analysis.offset + (header.section_begin idx + k)))
  (inv : EofTyped container header heights analysis data frames c) (at_it : c.code_it = some pos)
include typed located placed inv at_it

/-- A turn reads inside the container, unless its instruction over-reads. -/
theorem turn_inside (plain : ¬ c.OverReads (get_baseline_cost_table .PRAGUE 1) container) :
    Action.wlp (code_reads (fun _ => True) (Inside container))
      (turn host (get_baseline_cost_table .PRAGUE 1) pos c.stack_top c.gas) (fun _ _ => True) c.exec := by
  obtain ⟨frame, rest, i, rfl, stands⟩ := inv pos at_it
  have valid := (typed.sections frame.index stands.fits.listed).valid i stands.starts
  have reads := located.reads frame.index stands.fits.listed
  have same := stands.stays.analysis
  have inside : Readable (code_reads (fun _ => True) (Inside container)) c.exec.state
      (header.section_begin frame.index) (header.get_code container frame.index).length := by
    intro k within
    rw [same]
    exact ⟨trivial, placed frame.index stands.fits.listed k within⟩
  have here := inside.at stands.starts.2 stands.at_pos
  refine wlp_turn_leads here (fun _ _ _ _ => trivial) fun op name _ meets paid => ?_
  obtain ⟨opcode, _⟩ := stands.opcode typed located at_it
  have at_i : op_at (header.get_code container frame.index) i = op := by
    rw [Config.opcode, at_it] at opcode
    exact Option.some.inj (opcode.symm.trans name)
  rw [← at_i, stands.at_pos]
  have ends (falls : falls_through (op_at (header.get_code container frame.index) i) = true) :
      next_at (header.get_code container frame.index) i < (header.get_code container frame.index).length := by
    obtain ⟨_, _, _, _, all⟩ := (typed.sections frame.index stands.fits.listed).settled i stands.starts
    exact (all _ (next_mem_successors falls)).1.2
  refine eof_reads valid inside (by rw [same]; exact reads) ends fun wide k within => ⟨trivial, ?_⟩
  have near : ¬ (container.length : Int) ≤ c.exec.state.analysis.offset + (pos + 8) := fun far =>
    plain ⟨pos, op, at_it, at_i ▸ opcode, at_i ▸ wide, meets.success paid, far⟩
  obtain ⟨lower, _⟩ := here.2
  have at_pos := stands.at_pos
  exact ⟨by omega, by omega⟩

omit typed located in
/-- One that over-reads reads outside. -/
theorem turn_outside (reads_over : c.OverReads (get_baseline_cost_table .PRAGUE 1) container) :
    ¬ ∀ index size, Event.code_access index size ∈
      (turn host (get_baseline_cost_table .PRAGUE 1) pos c.stack_top c.gas).events c.exec →
        Inside container index := by
  intro all
  obtain ⟨pos', op, at_it', opcode, wide, success, far⟩ := reads_over
  obtain rfl : pos = pos' := Option.some.inj (at_it.symm.trans at_it')
  obtain ⟨frame, rest, i, rfl, stands⟩ := inv pos at_it
  have name : Opcode.of_byte (c.exec.state.analysis.code_at pos) = some op := by
    rwa [Config.opcode, at_it] at opcode
  have here : Inside container (c.exec.state.analysis.offset + pos) := by
    rw [stands.stays.analysis, stands.at_pos]
    exact placed frame.index stands.fits.listed i stands.starts.2
  have outside : ¬ Inside container (c.exec.state.analysis.offset + (pos + 8)) := fun inside =>
    absurd inside.2 (not_lt.mpr far)
  obtain ⟨n, rfl, five_or_six⟩ : ∃ n, op = .PUSH n ∧ (n.val + 1 = 5 ∨ n.val + 1 = 6) := by
    rcases wide with rfl | rfl
    · exact ⟨4, rfl, Or.inl rfl⟩
    · exact ⟨5, rfl, Or.inr rfl⟩
  have stuck : Action.wlp (code_reads (Inside container) fun _ => True)
      (turn host (get_baseline_cost_table .PRAGUE 1) pos c.stack_top c.gas) (fun _ _ => False) c.exec :=
    wlp_turn_success ⟨here, trivial⟩ name success
      (wlp_code (wlp_on_state.mpr (push_outside five_or_six outside)))
  have ends : Action.wp (turn host (get_baseline_cost_table .PRAGUE 1) pos c.stack_top c.gas)
      (fun _ _ => True) c.exec := by
    refine wp_turn name success ?_
    have last := n.isLt
    have pushed : Action.wp (push (n.val + 1) c.stack_top pos) _ c.exec.state := wp_push (by omega)
    simp only [map_opcodes, invoke_impl, Action.wp_bind, Action.wp_pure, lift_on_state, wp_on_state]
    exact pushed.mono fun _ _ _ => trivial
  obtain ⟨next, e, returns, _⟩ := ends
  refine (stuck.returns (fun event member => ?_) returns).2
  cases event with
  | code_access index size => exact all index size member
  | _ => trivial

end

/-- In a run that writes nowhere else, validated code is read inside its container exactly when no `PUSH5` or `PUSH6` is
executed with less than eight bytes of the container behind its opcode. -/
theorem eof_code_inside [Ethash] (host : Host H) (msg : Message) (call_id : Nat) (heap : Nat → UInt8) (h : H)
    {container : Bytes} (accepted : validate_eof .PRAGUE container = .success)
    (fit : CodeOffsetsFit container) :
    ∃ analysis data, prepare .PRAGUE container = .ready analysis data ∧
      ((∀ fuel, ∀ e ∈ (dispatch host (get_baseline_cost_table .PRAGUE analysis.eof_header.version) fuel 0 0
          msg.gas).events ⟨.new msg .PRAGUE container data call_id analysis heap, h⟩, Confines e) →
        (∀ es c pos, Run host (get_baseline_cost_table .PRAGUE analysis.eof_header.version)
          (.start (.new msg .PRAGUE container data call_id analysis heap) h) es c → c.code_it = some pos →
            c.exec.state.Unspoiled heap) ∧
        ((∀ fuel index size, Event.code_access index size ∈
            (dispatch host (get_baseline_cost_table .PRAGUE analysis.eof_header.version) fuel 0 0 msg.gas).events
              ⟨.new msg .PRAGUE container data call_id analysis heap, h⟩ →
            0 ≤ index ∧ index < container.length) ↔
          ∀ es c, Run host (get_baseline_cost_table .PRAGUE analysis.eof_header.version)
            (.start (.new msg .PRAGUE container data call_id analysis heap) h) es c →
              ¬ c.OverReads (get_baseline_cost_table .PRAGUE analysis.eof_header.version) container)) := by
  obtain ⟨header, heights, analysis, data, built, analysed, ready, one, typed, located⟩ := validated_ready accepted fit
  have placed : ∀ idx < header.types.length, ∀ k < (header.get_code container idx).length,
      Inside container (analysis.offset + (header.section_begin idx + k)) :=
    fun idx listed k within => validated_inside built fit analysed listed within
  have start : EofTyped container header heights analysis data [⟨0, 0⟩]
      (.start (.new msg .PRAGUE container data call_id analysis heap) h) := .start typed
  have reached {es : List Event} {c : Config H} (run : Run host (get_baseline_cost_table .PRAGUE 1)
      (.start (.new msg .PRAGUE container data call_id analysis heap) h) es c) :
      ∃ frames, EofTyped container header heights analysis data frames c := by
    obtain ⟨frames, framed⟩ := run.framed
    exact ⟨frames, start.run typed located framed⟩
  refine ⟨analysis, data, ready, fun confined => ⟨fun es c pos run at_it => ?_, ?_⟩⟩
  · obtain ⟨n, first, at_first, same⟩ := run.dispatch_events at_it
    obtain rfl : 0 = first := Option.some.inj at_first
    exact run.unspoiled fun e member => confined (n + 0) e (same 0 ▸ List.mem_append_left _ member)
  rw [one]
  constructor
  · intro all es c run reads_over
    obtain ⟨frames, inv⟩ := reached run
    have at_it : ∃ pos, c.code_it = some pos := ⟨reads_over.choose, reads_over.choose_spec.choose_spec.1⟩
    obtain ⟨pos, at_it⟩ := at_it
    obtain ⟨n, first, at_first, same⟩ := run.dispatch_events at_it
    obtain rfl : 0 = first := Option.some.inj at_first
    have outside : ¬ ∀ index size, Event.code_access index size ∈
        (turn host (get_baseline_cost_table .PRAGUE 1) pos c.stack_top c.gas).events c.exec →
          Inside container index := turn_outside placed inv at_it reads_over
    refine outside fun index size member => all (n + 1) index size ?_
    have turned : Event.code_access index size ∈
        (dispatch host (get_baseline_cost_table .PRAGUE 1) 1 pos c.stack_top c.gas).events c.exec :=
      Action.mem_events_bind member
    exact same 1 ▸ List.mem_append_right es turned
  · intro plain fuel index size access
    have inside : Action.wlp (code_reads (fun _ => True) (Inside container))
        (dispatch host (get_baseline_cost_table .PRAGUE 1) fuel 0 0 msg.gas) (fun _ _ => True)
        ⟨.new msg .PRAGUE container data call_id analysis heap, h⟩ := by
      refine wlp_dispatch (I := fun pos height gas exec => ∃ es, Run host (get_baseline_cost_table .PRAGUE 1)
        (.start (.new msg .PRAGUE container data call_id analysis heap) h) es ⟨some pos, height, gas, exec⟩) ?_
        ⟨[], .start⟩
      rintro pos height gas exec ⟨es, run⟩
      obtain ⟨frames, inv⟩ := reached run
      refine ((turn_inside typed located placed inv rfl (plain es _ run)).and_returns fun next e returns => ?_).mono
        fun _ _ both => both.2
      intro pos' going
      have executes : Executes host (get_baseline_cost_table .PRAGUE 1) ⟨some pos, height, gas, exec⟩
          ((turn host (get_baseline_cost_table .PRAGUE 1) pos height gas).events exec)
          ⟨some pos', next.stack_top, next.gas, e⟩ := by
        refine ⟨Or.inl nofun, pos, rfl, ?_⟩
        rw [← going]
        exact Prod.ext rfl returns
      exact ⟨_, run.next executes⟩
    exact (Action.Contract.After.ensures inside fun event _ => by cases event <;> trivial).1 _ access

theorem eof_code_inside_callf : ∃ analysis data,
    prepare .PRAGUE calling_container = .ready analysis data ∧
      ((∀ fuel index size, Event.code_access index size ∈
          (@dispatch Unit no_hash empty_host (get_baseline_cost_table .PRAGUE analysis.eof_header.version)
            fuel 0 0 100).events ⟨.new { gas := 100 } .PRAGUE calling_container data 0 analysis fun _ => 0, ()⟩ →
          0 ≤ index ∧ index < calling_container.length) ↔
        ∀ es c, @Run _ no_hash empty_host (get_baseline_cost_table .PRAGUE analysis.eof_header.version)
          (.start (.new { gas := 100 } .PRAGUE calling_container data 0 analysis fun _ => 0) ()) es c →
            ¬ c.OverReads (get_baseline_cost_table .PRAGUE analysis.eof_header.version) calling_container) := by
  obtain ⟨analysis, data, ready, inside⟩ := @eof_code_inside _ no_hash empty_host { gas := 100 } 0 (fun _ => 0) ()
    calling_container (by decide) calling_container_fits
  have whole : ∃ analysis' data', prepare .PRAGUE calling_container = .ready analysis' data' ∧
      (@dispatch Unit no_hash empty_host (get_baseline_cost_table .PRAGUE analysis'.eof_header.version) 3 0 0 100
        ⟨.new { gas := 100 } .PRAGUE calling_container data' 0 analysis' fun _ => 0, ()⟩).2.isSome = true ∧
      ∀ e ∈ (@dispatch Unit no_hash empty_host (get_baseline_cost_table .PRAGUE analysis'.eof_header.version) 3 0 0
        100).events ⟨.new { gas := 100 } .PRAGUE calling_container data' 0 analysis' fun _ => 0, ()⟩, Confines e :=
    ⟨_, _, rfl, by decide +kernel, by decide +kernel⟩
  obtain ⟨analysis', data', ready', finished, confined⟩ := whole
  obtain ⟨rfl, rfl⟩ := Preparation.ready.inj (ready.symm.trans ready')
  obtain ⟨_, finished⟩ := Option.isSome_iff_exists.mp finished
  exact ⟨analysis, data, ready, (inside fun fuel e member =>
    confined e (@dispatch_events_of_finished Unit empty_host _ _ _ no_hash _ _ _ _ _ _ finished member)).2⟩

/-- A container with one section, that ends after `PUSH5` and its data with `STOP`. -/
def short_push_container : Bytes :=
  [0xef, 0, 1, 1, 0, 4, 2, 0, 1, 0, 7, 4, 0, 0, 0, 0, 0x80, 0, 1, 0x64, 1, 2, 3, 4, 5, 0]

theorem short_push_container_fits : CodeOffsetsFit short_push_container := by
  have valid : HeadersValid short_push_container 4 [7] 0 := {
    type_id := rfl
    at_type_size := rfl
    code_id := rfl
    code_num := rfl
    at_code_sizes := sizesAt_cons.mpr ⟨rfl, fun _ none => absurd none (Nat.not_lt_zero _)⟩
    data_id := rfl
    at_data_size := rfl
    terminator := rfl
    some_code := by decide
    few_sections := by decide
    no_empty_code := by decide
    type_entries := rfl
    bodies := rfl }
  exact valid.offsets_fit_iff.mpr ⟨by decide, trivial⟩

theorem code_access_mem {es : List Event} {index : Int} {size : Nat}
    (found : es.any fun e => match e with
      | .code_access at_index buffer_size => at_index == index && buffer_size == size
      | _ => false) : Event.code_access index size ∈ es := by
  obtain ⟨event, member, same⟩ := List.any_eq_true.mp found
  cases event with
  | code_access at_index buffer_size =>
    obtain ⟨at_index', buffer_size'⟩ := Bool.and_eq_true_iff.mp same
    rwa [← eq_of_beq at_index', ← eq_of_beq buffer_size']
  | _ => exact absurd same Bool.false_ne_true

/-- The load of the data takes in two bytes behind the container. -/
theorem eof_code_inside_fails : validate_eof .PRAGUE short_push_container = .success ∧
    CodeOffsetsFit short_push_container ∧
    ∃ analysis data, prepare .PRAGUE short_push_container = .ready analysis data ∧
      ∃ fuel index size, Event.code_access index size ∈
          (@dispatch Unit no_hash empty_host (get_baseline_cost_table .PRAGUE analysis.eof_header.version)
            fuel 0 0 100).events ⟨.new { gas := 100 } .PRAGUE short_push_container data 0 analysis fun _ => 0, ()⟩ ∧
          ¬ (0 ≤ index ∧ index < short_push_container.length) := by
  refine ⟨by decide, short_push_container_fits, _, _, rfl, 1, 26, 26, ?_, by decide⟩
  exact code_access_mem (by decide +kernel)
end EvmAssigner
