/-
How the reading of an answer ends, from the bytes of the stream alone: it returns, it is refused with an
HTTP error or an error of the connection, or it ends in a fault, an exception that the code does not
expect.
-/
import FortiRdp.Http.ChunkedBody

namespace FortiRdp.Http

open Util Net

/-- An `http_error` or an `mbed_error`. -/
def IsRefusal : Exn → Prop
  | .mbedError _ | .httpError _ => True
  | .cookieError _ | .outOfRange | .invalidArgument | .exhausted => False

/-- The reading ends with an HTTP error or an error of the connection. -/
def Refused {α : Type} (r : EStateM.Result Exn Receiver α) : Prop := ∃ e s', r = .error e s' ∧ IsRefusal e

/-! ## Exceptions of the reader -/

section

theorem raises_readBuffer (len : Nat) : Run.Raises IsRefusal (Answer.readBuffer len) := raises_buffer (fun _ => trivial) len

theorem raises_modifyAnswer (f : Answer → Answer) : Run.Raises IsRefusal (Answer.modifyAnswer f) := Run.Raises.modify _

theorem raises_readLineStep (l : Answer.Line) : Run.Raises IsRefusal (Answer.readLineStep l) :=
  raises_lineStep (fun _ => trivial) l

/-- A round that goes on has taken a byte. -/
theorem readLineStep_decreases {l l' : Answer.Line} {s s' : Receiver} (h : Answer.readLineStep l s = .ok (.inl l') s') :
    (available s'.incoming).length < (available s.incoming).length := by
  obtain ⟨c, hav, -⟩ := readLineStep_inl h
  rw [hav]
  exact Nat.lt_succ_self _

theorem length_available_lt (segs : List Seg) : (available segs).length < bytesLeft segs + 1 := by
  obtain ⟨tail, harr, -⟩ := arrives_available segs
  exact Nat.lt_succ_of_le (arrives_bytesLeft harr)

theorem raises_readLine (buffer : ByteBuffer) : Run.Raises IsRefusal (Answer.readLine buffer) := by
  intro s e s' h
  have hrun : Run.iterate .exhausted Answer.readLineStep (bytesLeft s.incoming + 1) (.start buffer) s = .error e s' := h
  exact Run.Raises.iterate (m := fun _ s => (available s.incoming).length) (fun _ _ _ _ h => readLineStep_decreases h)
    raises_readLineStep _ _ s e s' (length_available_lt _) hrun

theorem raises_readStatusCode : ∀ digits, Run.Raises IsRefusal (Answer.readStatusCode digits)
  | [] => Run.Raises.bind Run.Raises.get fun _ => Run.Raises.pure _
  | _ :: digits =>
    Run.Raises.ite (Run.Raises.bind (raises_modifyAnswer _) fun _ => raises_readStatusCode digits) (Run.Raises.pure _)

theorem raises_readReason : Run.Raises IsRefusal Answer.readReason := by
  refine Run.Raises.bind (raises_readLine _) fun v => Run.Raises.ite ?_ (Run.Raises.pure _)
  refine Run.Raises.bind (Run.Raises.except_ok (trim_eq _)) fun t => ?_
  exact Run.Raises.bind (raises_modifyAnswer _) fun _ => Run.Raises.pure _

theorem raises_readControlData : Run.Raises IsRefusal Answer.readControlData := by
  refine Run.Raises.bind (raises_modifyAnswer _) fun _ => Run.Raises.bind (raises_readBuffer 8) fun version => ?_
  cases version with
  | none => exact Run.Raises.pure _
  | some version =>
  refine Run.Raises.ite (Run.Raises.pure _) (Run.Raises.bind (raises_readBuffer 1) fun space => ?_)
  cases space with
  | none => exact Run.Raises.pure _
  | some space =>
  refine Run.Raises.ite (Run.Raises.pure _) (Run.Raises.bind (raises_readBuffer 3) fun digits => ?_)
  cases digits with
  | none => exact Run.Raises.pure _
  | some digits =>
  refine Run.Raises.bind (raises_modifyAnswer _) fun _ => Run.Raises.bind (raises_readStatusCode digits) fun status => ?_
  exact Run.Raises.ite (Run.Raises.pure _) raises_readReason

end

/-! ## The status line -/

/-- The three digits are a status code. -/
def isStatusCode (digits : Bytes) : Bool :=
  decide (digits.length = 3) && digits.all isdigit &&
    decide (100 ≤ digits.foldl (fun n c => n * 10 + (c.toNat - 48)) 0) &&
    decide (digits.foldl (fun n c => n * 10 + (c.toNat - 48)) 0 < 600)

/-- The bytes after a status line that is accepted. -/
def statusBytes (bytes : Bytes) : Option Bytes :=
  if bytes.take 8 = ascii "HTTP/1.1" ∧ (bytes.drop 8).take 1 = ascii " " ∧ isStatusCode ((bytes.drop 9).take 3) then
    (lineBytes (.start (.ofCapacity 1024)) (bytes.drop 12)).map Prod.snd
  else none

theorem readReason_exists {p : Answer} {line : ByteBuffer} {a rest : Bytes}
    (h : lineBytes (.start (.ofCapacity 1024)) (a ++ rest) = some (line, rest)) :
    Consumes (· = p) Answer.readReason a fun v ans => v = .errNone ∧ ∃ reason, ans = { p with reasonPhrase := reason } := by
  rw [← List.append_nil a]
  refine Consumes.bind_eq (readLine_bytes rest h) ?_
  by_cases hempty : line.bytes = []
  · simp only [hempty, ne_eq, not_true_eq_false, and_false, if_false]
    exact Consumes.pure fun ans h => ⟨rfl, p.reasonPhrase, h⟩
  · simp only [hempty, ne_eq, not_false_eq_true, and_self, if_true]
    refine Consumes.bind_eq (a := []) (Consumes.except (trim_eq _)) ?_
    exact Consumes.modify_bind (Consumes.pure fun ans h => ⟨rfl, _, h⟩)

theorem readControlData_exists {s : Receiver} {rest : Bytes} (h : statusBytes (available s.incoming) = some rest) :
    ∃ s', Answer.readControlData s = .ok .errNone s' ∧ available s'.incoming = rest := by
  unfold statusBytes at h
  split at h
  swap
  · cases h
  rename_i hline
  obtain ⟨hversion, hspace, hdigits⟩ := hline
  rw [Option.map_eq_some_iff] at h
  obtain ⟨⟨line, rest'⟩, hline, rfl⟩ := h
  obtain ⟨a, ha, -⟩ := lineBytes_append hline
  rw [ha] at hline
  simp only [isStatusCode, Bool.and_eq_true, decide_eq_true_eq, List.all_eq_true] at hdigits
  generalize hdef : ((available s.incoming).drop 9).take 3 = digits at hdigits
  obtain ⟨⟨⟨hlen, hall⟩, hlow⟩, hhigh⟩ := hdigits
  -- the parts of the line, in front of one another
  have hparts : available s.incoming = ascii "HTTP/1.1" ++ (ascii " " ++ (digits ++ a)) ++ rest' := by
    rw [← hversion, ← hspace, ← hdef]
    rw [List.append_assoc, List.append_assoc, List.append_assoc, ← ha]
    have h12 : (available s.incoming).drop 12 = ((available s.incoming).drop 9).drop 3 := by rw [List.drop_drop]
    have h9 : (available s.incoming).drop 9 = ((available s.incoming).drop 8).drop 1 := by rw [List.drop_drop]
    rw [h12, List.take_append_drop, h9, List.take_append_drop, List.take_append_drop]
  obtain ⟨tail, harr, hdead⟩ := arrives_available s.incoming
  rw [hparts, List.append_assoc, List.append_assoc, List.append_assoc] at harr
  obtain ⟨t, hstart, harr', -⟩ := readControlData_start hlen hall hlow hhigh harr
  obtain ⟨v, s', hrun, ⟨rfl, -⟩, hleft⟩ := readReason_exists (p := t.answer) hline tail t rest' rfl harr'
  exact ⟨s', hstart.trans hrun, available_arrives hdead hleft⟩

theorem readStatusCode_ok : ∀ {digits : Bytes} {s s' : Receiver},
    Answer.readStatusCode digits s = .ok .errNone s' →
      (∀ c ∈ digits, isdigit c = true) ∧
        100 ≤ digits.foldl (fun n c => n * 10 + (c.toNat - 48)) s.answer.statusCode ∧
        digits.foldl (fun n c => n * 10 + (c.toNat - 48)) s.answer.statusCode < 600 ∧ s'.incoming = s.incoming
  | [], s, s', h => by
    have heq : Answer.readStatusCode [] s =
        .ok (if s.answer.statusCode < 100 ∨ 600 ≤ s.answer.statusCode then .errInvalidStatusCode else .errNone) s := rfl
    rw [heq] at h
    injection h with hcode hs
    subst hs
    split at hcode
    · cases hcode
    · rename_i hrange
      rw [not_or, not_lt, not_le] at hrange
      exact ⟨fun _ hc => absurd hc List.not_mem_nil, hrange.1, hrange.2, rfl⟩
  | c :: digits, s, s', h => by
    unfold Answer.readStatusCode at h
    split at h
    · rename_i hdigit
      obtain ⟨_, t, ht, h⟩ := Run.bind_eq_ok h
      cases ht
      obtain ⟨hall, hlow, hhigh, hincoming⟩ := readStatusCode_ok h
      refine ⟨fun d hd => ?_, hlow, hhigh, hincoming⟩
      rcases List.mem_cons.1 hd with rfl | hd
      · exact hdigit
      · exact hall d hd
    · cases h

theorem readReason_ok {s s' : Receiver} (h : Answer.readReason s = .ok .errNone s') :
    (lineBytes (.start (.ofCapacity 1024)) (available s.incoming)).map Prod.snd = some (available s'.incoming) := by
  obtain ⟨⟨status, line⟩, t, hline, h⟩ := Run.bind_eq_ok h
  have hstatus : status = .errNone ∧ available s'.incoming = available t.incoming := by
    simp only at h
    split at h
    · rename_i hnone
      obtain ⟨v, u, hv, h⟩ := Run.bind_eq_ok h
      rw [trim_eq] at hv
      cases hv
      obtain ⟨_, w, hw, h⟩ := Run.bind_eq_ok h
      cases hw
      cases h
      exact ⟨rfl, rfl⟩
    · cases h
      exact ⟨rfl, rfl⟩
  obtain ⟨rfl, hav⟩ := hstatus
  rw [(readLine_ok hline).1, hav]
  rfl

theorem readControlData_ok {s s' : Receiver} (h : Answer.readControlData s = .ok .errNone s') :
    statusBytes (available s.incoming) = some (available s'.incoming) := by
  obtain ⟨_, s₀, h₀, h⟩ := Run.bind_eq_ok h
  cases h₀
  obtain ⟨version, s₁, h₁, h⟩ := Run.bind_eq_ok h
  cases version with
  | none => cases h
  | some version =>
  obtain ⟨hav₁, hlen₁, -⟩ := readBuffer_ok h₁
  simp only at h
  split at h
  · cases h
  rename_i hversion
  rw [not_not] at hversion
  obtain ⟨space, s₂, h₂, h⟩ := Run.bind_eq_ok h
  cases space with
  | none => cases h
  | some space =>
  obtain ⟨hav₂, hlen₂, -⟩ := readBuffer_ok h₂
  simp only at h
  split at h
  · cases h
  rename_i hspace
  rw [not_not] at hspace
  obtain ⟨digits, s₃, h₃, h⟩ := Run.bind_eq_ok h
  cases digits with
  | none => cases h
  | some digits =>
  obtain ⟨hav₃, hlen₃, -⟩ := readBuffer_ok h₃
  obtain ⟨_, s₄, h₄, h⟩ := Run.bind_eq_ok h
  cases h₄
  obtain ⟨status, s₅, h₅, h⟩ := Run.bind_eq_ok h
  split at h
  · rename_i hstatus
    cases h
    exact absurd rfl hstatus
  rename_i hstatus
  rw [not_not] at hstatus
  subst hstatus
  obtain ⟨hall, hlow, hhigh, hincoming⟩ := readStatusCode_ok h₅
  have hreason := readReason_ok h
  rw [hincoming] at hreason
  -- the bytes of the line
  have hbytes : available s.incoming = version ++ (space ++ (digits ++ available s₃.incoming)) := by
    rw [← hav₃, ← hav₂]
    exact hav₁
  have htake : (available s.incoming).take 8 = version := by rw [hbytes, ← hlen₁, List.take_left]
  have hdrop8 : (available s.incoming).drop 8 = space ++ (digits ++ available s₃.incoming) := by
    rw [hbytes, ← hlen₁, List.drop_left]
  have hdrop9 : (available s.incoming).drop 9 = digits ++ available s₃.incoming := by
    rw [show 9 = 8 + space.length by rw [hlen₂], ← List.drop_drop, hdrop8, List.drop_left]
  have hdrop12 : (available s.incoming).drop 12 = available s₃.incoming := by
    rw [show 12 = 9 + digits.length by rw [hlen₃], ← List.drop_drop, hdrop9, List.drop_left]
  have hcode : isStatusCode digits = true := by
    simp only [isStatusCode, Bool.and_eq_true, decide_eq_true_eq, List.all_eq_true]
    exact ⟨⟨⟨hlen₃, hall⟩, hlow⟩, hhigh⟩
  unfold statusBytes
  rw [htake, hdrop8, hdrop9, hdrop12, ← hlen₂, List.take_left, ← hlen₃, List.take_left, if_pos ⟨hversion, hspace, hcode⟩]
  exact hreason

/-- The status line is accepted, or it is refused, or another status than `errNone` is returned. -/
theorem readControlData_outcome (s : Receiver) :
    match statusBytes (available s.incoming) with
    | some rest => ∃ s', Answer.readControlData s = .ok .errNone s' ∧ available s'.incoming = rest
    | none => (∃ status s', Answer.readControlData s = .ok status s' ∧ status ≠ .errNone) ∨ Refused (Answer.readControlData s) := by
  split
  · rename_i rest hrest
    exact readControlData_exists hrest
  · rename_i hnone
    cases hrun : Answer.readControlData s with
    | error e s' => exact .inr ⟨e, s', rfl, raises_readControlData s e s' hrun⟩
    | ok status s' =>
      refine .inl ⟨status, s', rfl, fun hstatus => ?_⟩
      subst hstatus
      rw [readControlData_ok hrun] at hnone
      cases hnone

end FortiRdp.Http
