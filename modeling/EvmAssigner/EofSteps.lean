import EvmAssigner.EofTyping
import EvmAssigner.Positions

namespace EvmAssigner
variable {H : Type}

/-- What the instructions other than `CALLF` and `RETF` leave alone. -/
structure Stays (analysis : CodeAnalysis) (data : Bytes) (call_stack : List Int) (s : ExecutionState) : Prop where
  analysis : s.analysis = analysis
  data : s.data = data
  call_stack : s.call_stack = call_stack

section
variable {analysis : CodeAnalysis} {data : Bytes} {call_stack : List Int} {s : ExecutionState} {h pos : Int}

theorem Stays.set_status {status : StatusCode} (stays : Stays analysis data call_stack s) :
    Stays analysis data call_stack (s.set_status status) :=
  ⟨stays.analysis, stays.data, stays.call_stack⟩

theorem stays_wide {P : Action.Contract Event} : WideInert P (Stays analysis data call_stack) where
  record _ _ _ inv := ⟨inv.analysis, inv.data, inv.call_stack⟩
  push_storage _ _ _ _ _ inv := ⟨inv.analysis, inv.data, inv.call_stack⟩
  set_slot _ _ inv := ⟨inv.analysis, inv.data, inv.call_stack⟩
  set_status _ inv := ⟨inv.analysis, inv.data, inv.call_stack⟩
  set_return_data _ inv := ⟨inv.analysis, inv.data, inv.call_stack⟩
  set_output _ _ inv _ := ⟨inv.analysis, inv.data, inv.call_stack⟩
  add_refund _ inv := ⟨inv.analysis, inv.data, inv.call_stack⟩
  set_tx _ inv := ⟨inv.analysis, inv.data, inv.call_stack⟩
  grow inv _ _ := ⟨inv.analysis, inv.data, inv.call_stack⟩
  host_output inv _ _ := ⟨inv.analysis, inv.data, inv.call_stack⟩
  store _ _ inv := ⟨inv.analysis, inv.data, inv.call_stack⟩
  push_memory _ _ _ inv := ⟨inv.analysis, inv.data, inv.call_stack⟩

theorem Stays.reads (stays : Stays analysis data call_stack s) (reads : List (Int × Int)) :
    Stays analysis data call_stack (s.record_reads reads) :=
  (stays_wide (P := any_event)).reads stays reads

/-! Where the instructions that carry immediates lead. -/

theorem push_next {Len : Nat} :
    Action.wlp any_event (push Len h pos) (fun next _ => next = some (pos + (Len + 1))) s := by
  simp only [push, Action.wlp_bind, Action.wlp_ite, Action.wlp_pure, wlp_stack_set]
  exact ⟨fun _ => wlp_load_partial fun _ => wlp_load_full_words fun _ => wlp_any_event.mono fun _ _ _ => trivial,
    fun _ => wlp_load_full_words fun _ => wlp_any_event.mono fun _ _ _ => trivial⟩

theorem dupn_next : Action.wlp any_event (dupn h pos) (fun next _ => next = none ∨ next = some (pos + 2)) s := by
  simp [dupn, dup_slot, push_word, fail_with]

theorem swapn_next : Action.wlp any_event (swapn h pos) (fun next _ => next = none ∨ next = some (pos + 2)) s := by
  simp [swapn, fail_with]

theorem dataloadn_next : Action.wlp any_event (dataloadn h pos) (fun next _ => next = some (pos + 3)) s := by
  simp [dataloadn, read_uint16_be, push_word]

/-- The 16 bits behind a position of the running code. -/
def CodeAnalysis.uint16_at (analysis : CodeAnalysis) (pos : Int) : Nat :=
  (analysis.code_at pos).toNat * 256 + (analysis.code_at (pos + 1)).toNat

theorem rjump_next : Action.wlp any_event (rjump h pos) (fun next s' =>
    next = some (pos + 3 + Int.bmod (s.analysis.uint16_at (pos + 1)) (2 ^ 16)) ∧ s' = s) s := by
  simp [rjump, read_int16_be, read_uint16_be, CodeAnalysis.uint16_at]

theorem rjumpi_next : Action.wlp any_event (rjumpi h pos) (fun next _ => next = some (pos + 3) ∨
    next = some (pos + 3 + Int.bmod (s.analysis.uint16_at (pos + 1)) (2 ^ 16))) s := by
  simp [rjumpi, rjump, read_int16_be, read_uint16_be, CodeAnalysis.uint16_at]

theorem rjumpv_next : Action.wlp any_event (rjumpv h pos) (fun next _ =>
    next = some (pos + 1 + 1 + ((s.analysis.code_at (pos + 1)).toNat + 1) * 2) ∨
    ∃ k ≤ (s.analysis.code_at (pos + 1)).toNat,
      next = some (pos + 1 + 1 + ((s.analysis.code_at (pos + 1)).toNat + 1) * 2 +
        Int.bmod (s.analysis.uint16_at (pos + (2 + k * 2))) (2 ^ 16))) s := by
  have index_lt := (s.analysis.code_at (pos + 1)).toNat_lt
  simp only [rjumpv, read_int16_be, read_uint16_be, Action.wlp_bind, Action.wlp_ite, Action.wlp_pure,
    wlp_record_stack, wlp_stack_get, wlp_read_code]
  refine ⟨fun _ => Or.inl rfl, fun small => Or.inr ⟨_, not_lt.mp small, ?_⟩⟩
  have at_most : ((s.record h 0 false).stack_space (h - 1 - 0)).to_uint64 ≤ (s.analysis.code_at (pos + 1)).toNat :=
    not_lt.mp small
  have kept : (((s.record h 0 false).stack_space (h - 1 - 0)).to_uint64 : Int) % 2 ^ 16 =
      ((s.record h 0 false).stack_space (h - 1 - 0)).to_uint64 := by
    omega
  rw [kept]
  rfl

theorem enter_section_next {index : Nat} : Action.wlp any_event (enter_section index h) (fun header s' =>
    header = none ∨ header = some s.analysis.eof_header ∧ s' = s ∧
      h + ((s.analysis.eof_header.types.getD index default).max_stack_height -
        (s.analysis.eof_header.types.getD index default).inputs) ≤ 1024) s := by
  simp only [enter_section, Action.wlp_bind, Action.wlp_get,
    Action.wlp_emit_ignored (VectorQuiet.vector_access _ _), Action.wlp_ite, Action.wlp_modify, Action.wlp_pure]
  exact ⟨fun _ => Or.inl trivial, fun room => Or.inr ⟨trivial, trivial, not_lt.mp room⟩⟩

/-- Where a section begins, counted from the first one. -/
def EOF1Header.section_begin (header : EOF1Header) (index : Nat) : Int :=
  (header.code_offsets.getD index 0 : Int) - header.code_offsets.getD 0 0

theorem section_start_next {header : EOF1Header} {index : Nat} :
    Action.wlp any_event (section_start header index) (fun next s' =>
      next = some (header.section_begin index) ∧ s' = s) s := by
  simp only [section_start, Action.wlp_bind, Action.wlp_emit_ignored (VectorQuiet.vector_access _ _),
    Action.wlp_pure]
  exact ⟨rfl, trivial⟩

theorem callf_next : Action.wlp any_event (callf h pos) (fun next s' => next = none ∨
    next = some (s.analysis.eof_header.section_begin (s.analysis.uint16_at (pos + 1))) ∧
      s' = s.set_call_stack (s.call_stack ++ [pos + 3]) ∧
      h + ((s.analysis.eof_header.types.getD (s.analysis.uint16_at (pos + 1)) default).max_stack_height -
        (s.analysis.eof_header.types.getD (s.analysis.uint16_at (pos + 1)) default).inputs) ≤ 1024) s := by
  simp only [callf, read_uint16_be, Action.wlp_bind, Action.wlp_pure, wlp_read_code]
  refine enter_section_next.mono fun header s' entered => ?_
  rcases entered with rfl | ⟨rfl, rfl, room⟩
  · exact Action.wlp_pure.mpr (Or.inl rfl)
  · simp only [fail_with, Action.wlp_bind, Action.wlp_get, Action.wlp_ite, Action.wlp_modify, Action.wlp_pure]
    refine ⟨fun _ => Or.inl trivial, fun _ => section_start_next.mono ?_⟩
    rintro _ _ ⟨rfl, rfl⟩
    exact Or.inr ⟨rfl, rfl, room⟩

theorem jumpf_next : Action.wlp any_event (jumpf h pos) (fun next s' => next = none ∨
    next = some (s.analysis.eof_header.section_begin (s.analysis.uint16_at (pos + 1))) ∧ s' = s ∧
      h + ((s.analysis.eof_header.types.getD (s.analysis.uint16_at (pos + 1)) default).max_stack_height -
        (s.analysis.eof_header.types.getD (s.analysis.uint16_at (pos + 1)) default).inputs) ≤ 1024) s := by
  simp only [jumpf, read_uint16_be, Action.wlp_bind, Action.wlp_pure, wlp_read_code]
  refine enter_section_next.mono fun header s' entered => ?_
  rcases entered with rfl | ⟨rfl, rfl, room⟩
  · exact Action.wlp_pure.mpr (Or.inl rfl)
  · refine section_start_next.mono ?_
    rintro _ _ ⟨rfl, rfl⟩
    exact Or.inr ⟨rfl, rfl, room⟩

theorem retf_next : Action.wlp any_event (retf h pos) (fun next s' =>
    next = some (s.call_stack.getLastD 0) ∧ s' = s.set_call_stack s.call_stack.dropLast) s := by
  simp only [retf, Action.wlp_bind, Action.wlp_get, Action.wlp_emit_ignored (VectorQuiet.vector_access _ _),
    Action.wlp_modify, Action.wlp_pure]
  exact ⟨trivial, trivial⟩

end

/-- Where the instruction at offset `i` of the section that begins at `start` may lead, from height `h`. -/
inductive EofLeads (analysis : CodeAnalysis) (data code : Bytes) (start : Int) (i : Nat) (h : Int)
    (s s' : ExecutionState) : Int → Prop
  | straight (falls : falls_through (op_at code i) = true) (callf : op_at code i ≠ .CALLF)
      (stays : Stays analysis data s.call_stack s') :
      EofLeads analysis data code start i h s s' (start + next_at code i)
  | target {rel : Int} (jumps : rel ∈ rel_offsets code (op_at code i) i)
      (stays : Stays analysis data s.call_stack s') :
      EofLeads analysis data code start i h s s' (start + (next_at code i + rel))
  | callf (op : op_at code i = .CALLF)
      (room : h + ((analysis.eof_header.types.getD (uint16_be_at code (i + 1)) default).max_stack_height -
        (analysis.eof_header.types.getD (uint16_be_at code (i + 1)) default).inputs) ≤ 1024)
      (stays : Stays analysis data (s.call_stack ++ [start + next_at code i]) s') :
      EofLeads analysis data code start i h s s'
        (analysis.eof_header.section_begin (uint16_be_at code (i + 1)))
  | jumpf (op : op_at code i = .JUMPF)
      (room : h + ((analysis.eof_header.types.getD (uint16_be_at code (i + 1)) default).max_stack_height -
        (analysis.eof_header.types.getD (uint16_be_at code (i + 1)) default).inputs) ≤ 1024)
      (stays : Stays analysis data s.call_stack s') :
      EofLeads analysis data code start i h s s'
        (analysis.eof_header.section_begin (uint16_be_at code (i + 1)))
  | retf (op : op_at code i = .RETF) (stays : Stays analysis data s.call_stack.dropLast s') :
      EofLeads analysis data code start i h s s' (s.call_stack.getLastD 0)

theorem EofLeads.going_on {analysis : CodeAnalysis} {data code : Bytes} {start h pos' : Int} {i n : Nat}
    {s s' : ExecutionState} {op : Opcode} (at_i : op_at code i = op) (falls : falls_through op = true)
    (callf : op ≠ .CALLF) (behind : next_at code i = n) (stays : Stays analysis data s.call_stack s')
    (at_pos : pos' = start + n) : EofLeads analysis data code start i h s s' pos' := by
  subst at_i
  rw [at_pos, ← behind]
  exact .straight falls callf stays

theorem EofLeads.jumping {analysis : CodeAnalysis} {data code : Bytes} {start h pos' rel : Int} {i n : Nat}
    {s s' : ExecutionState} {op : Opcode} (at_i : op_at code i = op) (jumps : rel ∈ rel_offsets code op i)
    (behind : next_at code i = n) (stays : Stays analysis data s.call_stack s')
    (at_pos : pos' = start + n + rel) : EofLeads analysis data code start i h s s' pos' := by
  subst at_i
  rw [at_pos, ← behind, add_assoc]
  exact .target jumps stays

section
variable [Ethash] {host : Host H} {exec : Exec H} {op : Opcode} {h left start : Int} {code data : Bytes}
  {analysis : CodeAnalysis} {types : List EOFCodeType} {data_size i : Nat}
  (reads : ∀ k < code.length, analysis.code_at (start + k) = code.getD k 0)

include reads in
omit [Ethash] in
theorem uint16_at_eq {k : Nat} (within : k + 1 < code.length) :
    analysis.uint16_at (start + k) = uint16_be_at code k := by
  have second := reads (k + 1) within
  rw [show start + ((k + 1 : Nat) : Int) = start + k + 1 by omega] at second
  rw [CodeAnalysis.uint16_at, reads k (by omega), second]
  rfl

include reads in
omit [Ethash] in
theorem immediate_eq (within : i + 2 < code.length) :
    analysis.uint16_at (start + i + 1) = uint16_be_at code (i + 1) := by
  rw [← uint16_at_eq reads (by omega)]
  congr 1
  omega

/-- Instructions without immediates that do not return an iterator go on with the next byte. -/
theorem plain_leads (at_i : op_at code i = op) (plain : ∀ fn, map_opcodes host op ≠ .code fn)
    (width : immediate_size op = 0) (falls : falls_through op = true) (rjumpv : op ≠ .RJUMPV)
    (calls : op.on_call_stack = false) (code_free : op.reads_code = false)
    (stays : Stays analysis data exec.state.call_stack exec.state) :
    Action.wlp any_event (invoke_impl (map_opcodes host op) (start + i) h left) (fun next e =>
      ∀ pos', next.1 = some pos' → EofLeads analysis data code start i h exec.state e.state pos') exec := by
  have keeps : (map_opcodes host op).Keeps any_event (start + i) h left _ exec :=
    stays_wide.step (fun on => by simp [calls] at on) (fun reads => by simp [code_free] at reads) stays
  have behind : next_at code i = i + 1 := by
    rw [next_at_other at_i rjumpv, width]
  refine ((keeps.ensures fun _ inv => inv.set_status).straight plain).mono fun next e both pos' going => ?_
  have callf : op ≠ .CALLF := by
    rintro rfl
    exact nomatch calls
  rcases both.1 with none | goes
  · exact nomatch none.symm.trans going
  · obtain rfl := Option.some.inj (goes.symm.trans going)
    exact .going_on at_i falls callf behind (both.2 (by rw [goes]; exact nofun)) (by omega)

theorem term_leads {fn : Int → Int → Instr H InstructionResult} (term : map_opcodes host op = .term fn) :
    Action.wlp any_event (invoke_impl (map_opcodes host op) (start + i) h left) (fun next e =>
      ∀ pos', next.1 = some pos' → EofLeads analysis data code start i h exec.state e.state pos') exec := by
  rw [term]
  exact wlp_term (wlp_any_event.mono fun _ _ _ _ ends => nomatch ends)

include reads in
/-- An instruction of a validated section leads where its kind says. -/
theorem eof_leads (valid : InstructionValid code types data_size (get_baseline_cost_table .PRAGUE 1) i)
    (within : i < code.length) (stays : Stays analysis data exec.state.call_stack exec.state) :
    Action.wlp any_event (invoke_impl (map_opcodes host (op_at code i)) (start + i) h left) (fun next e =>
      ∀ pos', next.1 = some pos' → EofLeads analysis data code start i h exec.state e.state pos') exec := by
  have same := stays.analysis
  have defined := valid.defined
  have whole := valid.whole
  cases at_i : op_at code i with
  | STOP | RETURN | REVERT | INVALID | SELFDESTRUCT => exact term_leads rfl
  | JUMP | JUMPI | PC =>
    rw [at_i] at defined
    exact absurd rfl defined
  | PUSH n =>
    have behind : next_at code i = i + (n.val + 1) + 1 := next_at_other at_i (by simp)
    refine wlp_code (wlp_on_state.mpr ((push_next.and (stays_wide.unread.push_keeps stays)).mono ?_))
    rintro _ s' ⟨rfl, stays'⟩ pos' going
    obtain rfl := Option.some.inj going
    exact .going_on at_i rfl (by simp) behind stays' (by omega)
  | DUPN =>
    have behind : next_at code i = i + 1 + 1 := next_at_other at_i (by simp)
    refine wlp_code (wlp_on_state.mpr
      ((dupn_next.and (stays_wide.unread.dupn_keeps stays fun _ => stays.reads _)).mono ?_))
    rintro _ s' ⟨rfl | rfl, stays'⟩ pos' going
    · contradiction
    · obtain rfl := Option.some.inj going
      exact .going_on at_i rfl (by simp) behind stays' (by omega)
  | SWAPN =>
    have behind : next_at code i = i + 1 + 1 := next_at_other at_i (by simp)
    refine wlp_code (wlp_on_state.mpr
      ((swapn_next.and (stays_wide.unread.swapn_keeps stays fun _ => stays.reads _)).mono ?_))
    rintro _ s' ⟨rfl | rfl, stays'⟩ pos' going
    · contradiction
    · obtain rfl := Option.some.inj going
      exact .going_on at_i rfl (by simp) behind stays' (by omega)
  | DATALOADN =>
    have behind : next_at code i = i + 2 + 1 := next_at_other at_i (by simp)
    refine wlp_code (wlp_on_state.mpr ((dataloadn_next.and (stays_wide.unread.dataloadn_keeps stays)).mono ?_))
    rintro _ s' ⟨rfl, stays'⟩ pos' going
    obtain rfl := Option.some.inj going
    exact .going_on at_i rfl (by simp) behind stays' (by omega)
  | RJUMP =>
    have behind : next_at code i = i + 2 + 1 := next_at_other at_i (by simp)
    have offset := immediate_eq reads (i := i) (by omega)
    refine wlp_code (wlp_on_state.mpr (rjump_next.mono ?_))
    rintro _ s' ⟨rfl, rfl⟩ pos' going
    obtain rfl := Option.some.inj going
    rw [same, offset]
    have at_pos : start + i + 3 = start + ((i + 2 + 1 : Nat) : Int) := by omega
    exact .jumping at_i (List.mem_singleton_self (int16_be_at code (i + 1))) behind stays (by rw [at_pos]; rfl)
  | RJUMPI =>
    have behind : next_at code i = i + 2 + 1 := next_at_other at_i (by simp)
    have offset := immediate_eq reads (i := i) (by omega)
    have at_pos : start + i + 3 = start + ((i + 2 + 1 : Nat) : Int) := by omega
    refine wlp_code (wlp_on_state.mpr ((rjumpi_next.and (Unread.rjumpi_keeps (stays.reads _))).mono ?_))
    rintro _ s' ⟨rfl | rfl, stays'⟩ pos' going
    · obtain rfl := Option.some.inj going
      exact .going_on at_i rfl (by simp) behind stays' at_pos
    · obtain rfl := Option.some.inj going
      rw [same, offset]
      exact .jumping at_i (List.mem_singleton_self (int16_be_at code (i + 1))) behind stays' (by rw [at_pos]; rfl)
  | RJUMPV =>
    have behind : next_at code i = i + (1 + ((code.getD (i + 1) 0).toNat + 1) * 2) + 1 := by
      rw [next_at, at_i]
      rfl
    have count : analysis.code_at (start + i + 1) = code.getD (i + 1) 0 := by
      rw [← reads (i + 1) (by omega)]
      congr 1
      omega
    have at_pos : start + i + 1 + 1 + (((code.getD (i + 1) 0).toNat : Int) + 1) * 2 =
        start + ((i + (1 + ((code.getD (i + 1) 0).toNat + 1) * 2) + 1 : Nat) : Int) := by omega
    refine wlp_code (wlp_on_state.mpr ((rjumpv_next.and (Unread.rjumpv_keeps (stays.reads _))).mono ?_))
    rintro _ s' ⟨rfl | ⟨k, at_most, rfl⟩, stays'⟩ pos' going
    · obtain rfl := Option.some.inj going
      rw [same, count]
      exact .going_on at_i rfl (by simp) behind stays' at_pos
    · obtain rfl := Option.some.inj going
      rw [same, count] at at_most ⊢
      have offset : analysis.uint16_at (start + i + (2 + k * 2)) = uint16_be_at code (i + k * 2 + 2) := by
        rw [← uint16_at_eq reads (by omega)]
        congr 1
        omega
      rw [offset]
      have jumps : int16_be_at code (i + k * 2 + 2) ∈ rel_offsets code .RJUMPV i :=
        List.mem_map.mpr ⟨k, List.mem_range.mpr (by omega), rfl⟩
      exact .jumping at_i jumps behind stays' (by rw [at_pos]; rfl)
  | CALLF =>
    have behind : next_at code i = i + 2 + 1 := next_at_other at_i (by simp)
    have index := immediate_eq reads (i := i) (by omega)
    refine wlp_code (wlp_on_state.mpr (callf_next.mono ?_))
    rintro _ s' (rfl | ⟨rfl, rfl, room⟩) pos' going
    · contradiction
    · obtain rfl := Option.some.inj going
      rw [same, index] at room ⊢
      refine .callf at_i room ⟨stays.analysis, stays.data, ?_⟩
      have at_pos : start + i + 3 = start + ((i + 2 + 1 : Nat) : Int) := by omega
      rw [behind, ← at_pos]
      rfl
  | JUMPF =>
    have behind : next_at code i = i + 2 + 1 := next_at_other at_i (by simp)
    have index := immediate_eq reads (i := i) (by omega)
    refine wlp_code (wlp_on_state.mpr (jumpf_next.mono ?_))
    rintro _ s' (rfl | ⟨rfl, rfl, room⟩) pos' going
    · contradiction
    · obtain rfl := Option.some.inj going
      rw [same, index] at room ⊢
      exact .jumpf at_i room stays
  | RETF =>
    refine wlp_code (wlp_on_state.mpr (retf_next.mono ?_))
    rintro _ s' ⟨rfl, rfl⟩ pos' going
    obtain rfl := Option.some.inj going
    exact .retf at_i ⟨stays.analysis, stays.data, rfl⟩
  | LOG n =>
    by_cases one : n.val = 1
    · obtain rfl : n = 1 := Fin.ext one
      exact plain_leads at_i (by simp [map_opcodes]) rfl rfl (by simp) rfl rfl stays
    · simp only [map_opcodes, if_neg one]
      simp [invoke_impl]
  | _ => exact plain_leads at_i (by simp [map_opcodes]) rfl rfl (by simp) rfl rfl stays

end
end EvmAssigner
