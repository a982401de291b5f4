import Da4qi4.Websocket.FrameChunks

/-! Where the loop of a call ends. The parser compares 32-bit remainders, so behind a
length that needs more bits it can ask for no octet while its payload is not complete. -/
namespace Da4qi4.Websocket
open FrameParser

/-- The frames of a stream, by the lengths that the parser reads. -/
def readHeads (tape : Tape) : List Head :=
  match _found : Head.ofTape tape with
  | some h => h :: readHeads (h.rest.drop h.lengthRead)
  | none => []
termination_by tape.length
decreasing_by
  have shorter := Head.ofTape_rest_length _found
  rw [List.length_drop]
  omega

/-- The length has 32 bits, or no octet comes behind what 32 bits of it count. -/
def Head.Narrow (h : Head) : Prop :=
  h.lengthRead < 2 ^ 32 ∨ h.rest.length ≤ h.lengthRead % 2 ^ 32

instance (h : Head) : Decidable h.Narrow := inferInstanceAs (Decidable (_ ∨ _))

theorem readHeads_cons (found : Head.ofTape tape = some h) :
    readHeads tape = h :: readHeads (h.rest.drop h.lengthRead) := by
  rw [readHeads]
  split
  · rename_i other same
    rw [found] at same
    cases same
    rfl
  · rename_i same
    rw [found] at same
    cases same

theorem readHeads_nil (missing : Head.ofTape tape = none) : readHeads tape = [] := by
  rw [readHeads]
  split
  · rename_i same
    rw [missing] at same
    cases same
  · rfl

theorem Head.lengthRead_of_empty (h : Head) (empty : code h.second = 0) : h.lengthRead = 0 := by
  have width : lengthWidth h.second = 0 := by simp [lengthWidth, empty]
  rw [lengthRead, if_pos width, empty]
  rfl

theorem map_ne_none {l : Option α} (f : α → β) : l.map f ≠ none ↔ l ≠ none :=
  Option.map_eq_none_iff.not

/-- Behind a header the octets are read to their end, or up to the next frame. -/
theorem ready_returns_iff (ready : Ready h p) :
    run p h.rest ≠ none ↔ h.Narrow ∧ run reset (h.rest.drop h.lengthRead) ≠ none := by
  have last (short : h.rest.length ≤ h.lengthRead) : run reset (h.rest.drop h.lengthRead) ≠ none := by
    rw [List.drop_eq_nil_of_le short]
    exact Option.some_ne_none _
  rw [← map_ne_none Prod.snd, run_ready ready]
  by_cases none : h.rest = []
  · have length : h.rest.length = 0 := List.length_eq_zero_iff.mpr none
    rw [if_pos none]
    exact iff_of_true (Option.some_ne_none _) ⟨.inr (by omega), last (by omega)⟩
  · rw [if_neg none]
    by_cases complete : h.lengthRead ≤ h.rest.length ∧ h.lengthRead < 2 ^ 32
    · rw [if_pos complete, map_ne_none, map_ne_none]
      exact (and_iff_right (.inl complete.2)).symm
    · rw [if_neg complete]
      split
      · rename_i short
        exact iff_of_true (Option.some_ne_none _) ⟨.inr short, last (by omega)⟩
      · rename_i long
        refine iff_of_false (not_not.mpr rfl) ?_
        rintro ⟨narrow | short, -⟩
        · omega
        · exact long short

theorem run_returns_iff (tape : Tape) : run reset tape ≠ none ↔ ∀ h ∈ readHeads tape, h.Narrow := by
  induction size : tape.length using Nat.strongRecOn generalizing tape with
  | ind size ih =>
    cases found : Head.ofTape tape with
    | none =>
      obtain ⟨p, ran⟩ := run_incomplete found
      rw [ran, readHeads_nil found]
      exact iff_of_true (Option.some_ne_none _) (List.forall_mem_nil _)
    | some h =>
      have shorter := Head.ofTape_rest_length found
      have next := ih (h.rest.drop h.lengthRead).length (by rw [List.length_drop]; omega)
        (h.rest.drop h.lengthRead) rfl
      rw [readHeads_cons found, List.forall_mem_cons, ← next]
      by_cases empty : Head.code h.second = 0
      · have zero := h.lengthRead_of_empty empty
        have narrow : h.Narrow := .inl (by omega)
        rw [run_head_empty found empty, zero, List.drop_zero, and_iff_right narrow]
        exact map_ne_none _
      · obtain ⟨p, ready, ran⟩ := run_head found empty
        rw [ran]
        exact ready_returns_iff ready

/-- The operation codes of the frames that have come whole, by the lengths that the parser
reads. A frame that is not empty takes an octet behind its header. -/
def codes (tape : Tape) : List UInt8 :=
  ((readHeads tape).filter fun h => Head.code h.second = 0 ∨
    (h.rest ≠ [] ∧ h.lengthRead ≤ h.rest.length)).map fun h => h.first &&& 0x0f

theorem codes_nil (missing : Head.ofTape tape = none) : codes tape = [] := by
  rw [codes, readHeads_nil missing]
  rfl

theorem codes_cons (found : Head.ofTape tape = some h) : codes tape =
    if Head.code h.second = 0 ∨ (h.rest ≠ [] ∧ h.lengthRead ≤ h.rest.length) then
      (h.first &&& 0x0f) :: codes (h.rest.drop h.lengthRead)
    else codes (h.rest.drop h.lengthRead) := by
  rw [codes, readHeads_cons found, List.filter_cons]
  simp only [decide_eq_true_eq]
  split
  · rfl
  · rfl

/-- The callbacks of a run that returns have the codes of these frames. -/
theorem run_codes (ran : run reset tape = some (p, messages)) :
    messages.map Message.opcode = codes tape := by
  induction size : tape.length using Nat.strongRecOn generalizing tape p messages with
  | ind size ih =>
    cases found : Head.ofTape tape with
    | none =>
      obtain ⟨q, incomplete⟩ := run_incomplete found
      cases ran.symm.trans incomplete
      exact (codes_nil found).symm
    | some h =>
      have shorter := Head.ofTape_rest_length found
      have less : (h.rest.drop h.lengthRead).length < tape.length := by
        rw [List.length_drop]
        omega
      rw [codes_cons found]
      by_cases empty : Head.code h.second = 0
      · have zero := h.lengthRead_of_empty empty
        rw [zero, List.drop_zero] at less ⊢
        rw [run_head_empty found empty] at ran
        obtain ⟨⟨q, later⟩, rest, same⟩ := Option.map_eq_some_iff.mp ran
        cases same
        rw [if_pos (.inl empty), ← ih _ (size ▸ less) rest rfl]
        rfl
      obtain ⟨q, ready, begun⟩ := run_head found empty
      have callbacks := run_ready ready
      rw [← begun, ran, Option.map_some] at callbacks
      by_cases none : h.rest = []
      · rw [if_pos none] at callbacks
        cases callbacks
        rw [if_neg fun whole => whole.elim empty fun both => both.1 none, none, List.drop_nil,
          codes_nil rfl]
        rfl
      rw [if_neg none] at callbacks
      by_cases complete : h.lengthRead ≤ h.rest.length ∧ h.lengthRead < 2 ^ 32
      · rw [if_pos complete] at callbacks
        obtain ⟨later, last, same⟩ := Option.map_eq_some_iff.mp callbacks.symm
        obtain ⟨⟨r, _⟩, rest, rfl⟩ := Option.map_eq_some_iff.mp last
        have sent : h.message _ :: _ = messages := same
        rw [if_pos (.inr ⟨none, complete.1⟩), ← ih _ (size ▸ less) rest rfl, ← sent]
        rfl
      · rw [if_neg complete] at callbacks
        split at callbacks
        · rename_i short
          cases callbacks
          rw [if_neg (by rintro (zero | ⟨-, whole⟩); exact empty zero; omega),
            List.drop_eq_nil_of_le (by omega), codes_nil rfl]
          rfl
        · cases callbacks

namespace FrameParser

/-- The call's loop ends, and so do those of the later calls. -/
def CallsReturn (p : FrameParser) : List Bytes → Prop
  | [] => True
  | chunk :: chunks => ∃ fuel c, parseLoop fuel ⟨p, chunk, []⟩ = some c ∧ CallsReturn c.parser chunks

theorem parseLoop_more {c d : Cursor} (ends : parseLoop fuel c = some d) (extra : Nat) :
    parseLoop (fuel + extra) c = some d := by
  induction fuel generalizing c with
  | zero => cases ends
  | succ fuel ih =>
    rw [Nat.add_right_comm, parseLoop]
    rw [parseLoop] at ends
    split
    · rename_i more
      exact ih ((if_pos more).symm.trans ends)
    · rename_i finished
      exact (if_neg finished).symm.trans ends

/-- With any fuel that suffices, the loop is the run. -/
theorem parseLoop_returns {p : FrameParser} (coherent : p.Coherent) {chunk : Bytes} (more : chunk ≠ [])
    (ends : parseLoop fuel ⟨p, chunk, []⟩ = some c) :
    run p chunk.zipIdx = some (c.parser, c.messages) := by
  have reads : Reads (run p chunk.zipIdx) ⟨p, chunk, []⟩ 0 := ⟨coherent, .inl rfl, after_nil _⟩
  have ends := parseLoop_more ends (need ⟨p, chunk, []⟩)
  rcases reads.parseLoop more (Nat.le_add_left _ fuel) with ⟨-, never⟩ | ⟨d, ran, same, -⟩
  · rw [ends] at never
    cases never
  · rw [ends] at same
    cases same
    exact ran

theorem tapeOf_cons (chunk : Bytes) (chunks : List Bytes) :
    tapeOf (chunk :: chunks) = chunk.zipIdx ++ tapeOf chunks :=
  List.flatMap_cons

theorem callsReturn_iff_run {p : FrameParser} (coherent : p.Coherent) {chunks : List Bytes}
    (some_octets : ∀ chunk ∈ chunks, chunk ≠ []) :
    CallsReturn p chunks ↔ run p (tapeOf chunks) ≠ none := by
  induction chunks generalizing p with
  | nil => exact iff_of_true trivial (Option.some_ne_none _)
  | cons chunk chunks ih =>
    obtain ⟨here, there⟩ := List.forall_mem_cons.mp some_octets
    have rest {q : FrameParser} {messages : List Message}
        (ran : run p chunk.zipIdx = some (q, messages)) :
        CallsReturn q chunks ↔ run p (tapeOf (chunk :: chunks)) ≠ none := by
      rw [ih (run_coherent coherent here ran) there, tapeOf_cons, run_append, ran]
      exact (map_ne_none _).symm
    constructor
    · rintro ⟨fuel, c, ends, later⟩
      exact (rest (parseLoop_returns coherent here ends)).mp later
    · intro returns
      have reads : Reads (run p chunk.zipIdx) ⟨p, chunk, []⟩ 0 := ⟨coherent, .inl rfl, after_nil _⟩
      rcases reads.parseLoop here (Nat.le_refl _) with ⟨none, -⟩ | ⟨c, ran, ends, -⟩
      · rw [tapeOf_cons, run_append, none] at returns
        exact absurd rfl returns
      · exact ⟨_, c, ends, (rest ran).mpr returns⟩

/-- Every call returns exactly if no frame, as the parser reads it, has a length of more
than 32 bits and more octets behind its header than 32 bits of the length count. -/
theorem calls_return_iff (chunks : List Bytes)
    (sizes : ∀ chunk ∈ chunks, chunk ≠ [] ∧ chunk.length < 2 ^ 32) :
    CallsReturn fresh chunks ↔ ∀ h ∈ readHeads (tapeOf chunks), h.Narrow := by
  rw [callsReturn_iff_run (p := fresh) reset_coherent fun chunk member => (sizes chunk member).1]
  exact run_returns_iff _

/-- A length of 2^32, and one octet of the payload. -/
def wideFrame : Bytes := [0x82, 0x7f, 0, 0, 0, 1, 0, 0, 0, 0, 0x61]

theorem wideFrame_never_returns : ¬CallsReturn fresh [wideFrame] := by
  rw [callsReturn_iff_run (p := fresh) reset_coherent (by decide), not_not]
  decide

theorem calls_return_text :
    CallsReturn fresh [[0x81, 1, 0x61]] ↔ ∀ h ∈ readHeads (tapeOf [[0x81, 1, 0x61]]), h.Narrow :=
  calls_return_iff [[0x81, 1, 0x61]] (by decide)

end FrameParser
end Da4qi4.Websocket
