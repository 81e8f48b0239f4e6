/-
Bodies in chunks: what a stream says the payloads are, and that the loop of the reader takes exactly
their bytes. What it stores of them ends at the size limit of a body.
-/
import FortiRdp.Http.AnswerRead

namespace FortiRdp.Http

open Util Net

theorem maxBodySize_lt : maxBodySize < 2 ^ 64 := by
  unfold maxBodySize
  omega

/-! ## Payloads -/

/-- The first chunk of the bytes: its payload, the line buffer after it and the bytes after it. -/
def chunkBytes (buffer : ByteBuffer) (bytes : Bytes) : Option (Bytes × ByteBuffer × Bytes) :=
  match lineBytes (.start buffer) bytes with
  | none => none
  | some (line, bytes) =>
    if line.bytes = [] then none
    else
    match str2num line.bytes 16 0 maxChunkSize with
    | none => none
    | some size =>
      if bytes.length < size.toNat then none
      else
      match lineBytes (.start line) (bytes.drop size.toNat) with
      | none => none
      | some (eol, rest) => if eol.bytes = [] then some (bytes.take size.toNat, eol, rest) else none

/-- The payloads up to the chunk of size 0, and the bytes after it. -/
def decodeChunks : Nat → ByteBuffer → Bytes → Option (List Bytes × Bytes)
  | 0, _, _ => none
  | n + 1, buffer, bytes =>
    match chunkBytes buffer bytes with
    | none => none
    | some (payload, eol, rest) =>
      if payload = [] then some ([], rest)
      else (decodeChunks n eol rest).map fun r => (payload :: r.1, r.2)

/-- A size that was read is a length. -/
theorem str2num_range {s : Bytes} {radix : Nat} {maxval n : Int} (h : str2num s radix 0 maxval = some n) :
    0 ≤ n ∧ n ≤ maxval := by
  unfold str2num at h
  split at h
  · cases h
  · split at h
    · cases h
    · split at h
      · cases h
      · cases h
        omega

theorem chunkBytes_append {buffer eol : ByteBuffer} {bytes payload rest : Bytes}
    (h : chunkBytes buffer bytes = some (payload, eol, rest)) : ∃ a, bytes = a ++ rest ∧ 0 < a.length := by
  unfold chunkBytes at h
  split at h
  · cases h
  rename_i line bytes' hline
  obtain ⟨a, rfl, ha⟩ := lineBytes_append hline
  split at h
  · cases h
  split at h
  · cases h
  rename_i size _
  split at h
  · cases h
  split at h
  · cases h
  rename_i eol' rest' heol
  obtain ⟨c, hc, -⟩ := lineBytes_append heol
  split at h
  · cases h
    refine ⟨a ++ (bytes'.take size.toNat ++ c), ?_, by rw [List.length_append]; omega⟩
    rw [List.append_assoc, List.append_assoc, ← hc, List.take_append_drop]
  · cases h

theorem decodeChunks_append : ∀ {n : Nat} {buffer : ByteBuffer} {bytes rest : Bytes} {payloads : List Bytes},
    decodeChunks n buffer bytes = some (payloads, rest) → ∃ a, bytes = a ++ rest
  | n + 1, buffer, bytes, rest, payloads, h => by
    unfold decodeChunks at h
    split at h
    · cases h
    rename_i payload eol rest' hchunk
    obtain ⟨a, rfl, -⟩ := chunkBytes_append hchunk
    split at h
    · cases h
      exact ⟨a, rfl⟩
    · rw [Option.map_eq_some_iff] at h
      obtain ⟨⟨payloads', rest''⟩, hrest, hout⟩ := h
      obtain ⟨-, rfl⟩ := Prod.mk.inj hout
      obtain ⟨c, rfl⟩ := decodeChunks_append hrest
      exact ⟨a ++ c, (List.append_assoc ..).symm⟩

/-! ## The loop -/

theorem readChunk_some {p : Answer} {d : Bytes} {buffer eol : ByteBuffer} {a payload rest : Bytes}
    (h : chunkBytes buffer (a ++ rest) = some (payload, eol, rest)) (hd : d.length ≤ maxBodySize) :
    Consumes (BodyIs p d) (Answer.readChunk buffer) a fun v ans =>
      v = (if payload = [] then .inr () else .inl eol) ∧ BodyIs p ((d ++ payload).take maxBodySize) ans := by
  unfold chunkBytes at h
  split at h
  · cases h
  rename_i line bytes hline
  obtain ⟨aline, haline, -⟩ := lineBytes_append hline
  split at h
  · cases h
  rename_i hne
  split at h
  · cases h
  rename_i size hsize
  obtain ⟨hpos, -⟩ := str2num_range hsize
  split at h
  · cases h
  rename_i hlen
  split at h
  · cases h
  rename_i eol' rest' heol
  obtain ⟨aeol, haeol, -⟩ := lineBytes_append heol
  split at h
  swap
  · cases h
  rename_i hempty
  obtain ⟨hpayload, rfl, rfl⟩ : bytes.take size.toNat = payload ∧ eol' = eol ∧ rest' = rest := by
    have h := Prod.mk.inj (Option.some.inj h)
    exact ⟨h.1, (Prod.mk.inj h.2).1, (Prod.mk.inj h.2).2⟩
  -- the three parts of the chunk
  obtain rfl : a = aline ++ (payload ++ aeol) := by
    have hbytes : bytes = payload ++ (aeol ++ rest') := by rw [← hpayload, ← haeol, List.take_append_drop]
    rw [hbytes, ← List.append_assoc, ← List.append_assoc] at haline
    rw [List.append_cancel_right haline, List.append_assoc]
  rw [haline] at hline
  rw [haeol] at heol
  unfold Answer.readChunk
  refine Consumes.bind_eq (readLine_bytes bytes hline) ?_
  simp only [hne, hsize, ne_eq, not_true_eq_false, or_self, if_false]
  have hread : Consumes (BodyIs p ((d ++ payload).take maxBodySize)) (Answer.readLine line) aeol _ :=
    readLine_bytes rest' heol
  have hpaylen : payload.length = size.toNat := by
    rw [← hpayload, List.length_take]
    omega
  by_cases hzero : payload = []
  · -- the last chunk has no body
    have hsize0 : ¬ 0 < size := by
      rw [hzero] at hpaylen
      simp only [List.length_nil] at hpaylen
      omega
    subst hzero
    rw [List.append_nil, List.take_of_length_le hd] at hread ⊢
    simp only [hsize0, if_false, if_true, List.nil_append]
    rw [← List.append_nil aeol]
    refine Consumes.bind_eq hread ?_
    simp only [hempty, not_true_eq_false, or_self, if_false]
    exact Consumes.pure fun _ h => ⟨rfl, h⟩
  · have hsize0 : 0 < size := by
      have := List.length_pos_of_ne_nil hzero
      omega
    have hbody := readBody_take (p := p) maxBodySize_lt hzero hd
    rw [hpaylen] at hbody
    simp only [hsize0, if_true, hzero, if_false]
    refine Consumes.bind_eq hbody ?_
    simp only [Bool.not_true, Bool.false_eq_true, if_false]
    rw [← List.append_nil aeol]
    refine Consumes.bind_eq hread ?_
    simp only [hempty, not_true_eq_false, or_self, if_false]
    exact Consumes.pure fun _ h => ⟨rfl, h⟩

/-- The line reader has stopped, and its caller throws. -/
theorem throw_of_errEof {α : Type} {v : AnswerStatus × ByteBuffer} {P : Prop} [Decidable P] {e : Exn} {x : AnswerM α}
    {s s' : Receiver} {w : α} (hv : v.1 = .errEof)
    (hrun : (if v.1 ≠ .errNone ∨ P then throw e else x) s = .ok w s') : False := by
  rw [if_pos (.inl (by rw [hv]; decide))] at hrun
  cases hrun

/-- The reader does not get over what is no chunk. -/
theorem readChunk_none {p : Answer} {d : Bytes} {buffer : ByteBuffer} {a : Bytes}
    (h : chunkBytes buffer a = none) (hd : d.length ≤ maxBodySize) :
    Yields (BodyIs p d) (Answer.readChunk buffer) a fun _ => False := by
  unfold chunkBytes at h
  unfold Answer.readChunk
  split at h
  · rename_i hline
    exact Yields.bind (readLine_none hline) fun v s w s' hv hrun => throw_of_errEof hv hrun
  rename_i line bytes hline
  obtain ⟨aline, haline, -⟩ := lineBytes_append hline
  rw [haline] at hline ⊢
  refine Yields.after (readLine_bytes bytes hline) ?_
  split at h
  · rename_i hempty
    simp only [hempty, or_true, if_true]
    exact Yields.throw
  rename_i hne
  simp only [hne, ne_eq, not_true_eq_false, or_self, if_false]
  rcases hsize : str2num line.bytes 16 0 maxChunkSize with _ | size
  · exact Yields.throw
  obtain ⟨hpos, -⟩ := str2num_range hsize
  simp only [hsize] at h ⊢
  split at h
  · -- the stream ends within the payload
    rename_i hlen
    rw [if_pos (by omega)]
    refine Yields.bind (readBody_none maxBodySize_lt hlen hd) fun v s w s' hv hrun => ?_
    rw [hv] at hrun
    cases hrun
  rename_i hlen
  -- what the end of line does
  have heol : ∀ q : Answer → Prop, Yields q (Answer.readLine line >>= fun v =>
      if v.1 ≠ .errNone ∨ v.2.bytes ≠ [] then throw (statusError .errBody)
      else if 0 < size then pure (.inl v.2) else pure (.inr ())) (bytes.drop size.toNat)
      fun _ : ByteBuffer ⊕ Unit => False := by
    intro q
    split at h
    · rename_i hnone
      exact Yields.bind (readLine_none hnone) fun v s w s' hv hrun => throw_of_errEof hv hrun
    rename_i eol rest heol
    obtain ⟨aeol, haeol, -⟩ := lineBytes_append heol
    split at h
    · cases h
    rename_i hfull
    rw [haeol] at heol ⊢
    refine Yields.after (readLine_bytes rest heol) ?_
    simp only [hfull, ne_eq, not_false_eq_true, or_true, if_true]
    exact Yields.throw
  by_cases hzero : 0 < size
  · rw [if_pos hzero]
    have hpay : (bytes.take size.toNat).length = size.toNat := by
      rw [List.length_take]
      omega
    have hbody := readBody_take (p := p) maxBodySize_lt (List.ne_nil_of_length_pos (by omega) : bytes.take size.toNat ≠ []) hd
    rw [hpay] at hbody
    rw [← List.take_append_drop size.toNat bytes]
    exact Yields.after hbody (heol _)
  · have hsize0 : size.toNat = 0 := by omega
    have hdrop := heol (BodyIs p d)
    rw [hsize0, List.drop_zero] at hdrop
    rw [if_neg hzero]
    exact hdrop

theorem readChunks_rest {p : Answer} : ∀ (m n : Nat) (buffer : ByteBuffer) (a rest d : Bytes) (payloads : List Bytes),
    a.length < n → decodeChunks m buffer (a ++ rest) = some (payloads, rest) → d.length ≤ maxBodySize →
      Consumes (BodyIs p d) (Run.iterate .exhausted Answer.readChunk n buffer) a
        fun _ => BodyIs p ((d ++ payloads.flatten).take maxBodySize)
  | 0, _, _, _, _, _, _, _, h, _ => by cases h
  | m + 1, 0, _, _, _, _, _, hn, _, _ => absurd hn (Nat.not_lt_zero _)
  | m + 1, n + 1, buffer, a, rest, d, payloads, hn, h, hd => by
    unfold decodeChunks at h
    split at h
    · cases h
    rename_i payload eol rest' hchunk
    obtain ⟨achunk, hbytes, hpos⟩ := chunkBytes_append hchunk
    rw [hbytes] at hchunk
    have hround := readChunk_some (p := p) hchunk hd
    split at h
    · rename_i hzero
      obtain ⟨rfl, rfl⟩ := Prod.mk.inj (Option.some.inj h)
      obtain rfl := List.append_cancel_right hbytes
      rw [if_pos hzero, hzero] at hround
      exact (Consumes.done hround).consequence (fun _ h => h) fun _ _ h => h.2
    · rename_i hzero
      rw [Option.map_eq_some_iff] at h
      obtain ⟨⟨payloads', rest''⟩, hrest, hout⟩ := h
      obtain ⟨rfl, rfl⟩ := Prod.mk.inj hout
      rw [if_neg hzero] at hround
      -- the other chunks stand in front of the rest
      obtain ⟨aothers, hothers⟩ := decodeChunks_append hrest
      rw [hothers, ← List.append_assoc] at hbytes
      obtain rfl := List.append_cancel_right hbytes
      rw [hothers] at hrest
      have ih := readChunks_rest (p := p) m n eol aothers rest'' ((d ++ payload).take maxBodySize) payloads'
        (by rw [List.length_append] at hn; omega) hrest (by rw [List.length_take]; omega)
      rw [take_take_append, List.append_assoc, ← List.flatten_cons] at ih
      exact Consumes.more hround ih

theorem readChunks_rest_none {p : Answer} : ∀ (m n : Nat) (buffer : ByteBuffer) (a d : Bytes),
    a.length < m → decodeChunks m buffer a = none → d.length ≤ maxBodySize →
      Yields (BodyIs p d) (Run.iterate .exhausted Answer.readChunk n buffer) a fun _ => False
  | 0, _, _, _, _, hm, _, _ => absurd hm (Nat.not_lt_zero _)
  | m + 1, 0, _, _, _, _, _, _ => Yields.throw
  | m + 1, n + 1, buffer, a, d, hm, h, hd => by
    unfold decodeChunks at h
    split at h
    · rename_i hchunk
      refine Yields.bind (readChunk_none hchunk hd) fun v s w s' hv _ => hv
    rename_i payload eol rest hchunk
    obtain ⟨achunk, rfl, hpos⟩ := chunkBytes_append hchunk
    have hround := readChunk_some (p := p) hchunk hd
    split at h
    · cases h
    · rename_i hzero
      rw [Option.map_eq_none_iff] at h
      rw [if_neg hzero] at hround
      refine Yields.more hround (readChunks_rest_none m n eol rest _ ?_ h ?_)
      · rw [List.length_append] at hm
        omega
      · rw [List.length_take]
        omega

/-- The payloads that a stream of chunks holds. -/
def chunkPayloads (bytes : Bytes) : Option (List Bytes × Bytes) :=
  decodeChunks (bytes.length + 1) (.ofCapacity maxLineSize) bytes

theorem readChunks_some {p : Answer} {a rest : Bytes} {payloads : List Bytes} (hbody : p.body.bytes = [])
    (h : chunkPayloads (a ++ rest) = some (payloads, rest)) :
    Consumes (· = p) Answer.readChunks a fun _ => BodyIs p (payloads.flatten.take maxBodySize) := by
  refine Consumes.get fun s hs hlen => ?_
  have hrun := readChunks_rest (p := p) _ (bytesLeft s.incoming + 1) _ a rest [] payloads (by omega) h (Nat.zero_le _)
  exact hrun.consequence (fun ans h => ⟨by rw [h, hs]; exact hbody, by rw [h, hs]⟩) fun _ _ h => h

theorem readChunks_none {p : Answer} {a : Bytes} (hbody : p.body.bytes = []) (h : chunkPayloads a = none) :
    Yields (· = p) Answer.readChunks a fun _ => False := by
  refine Yields.get fun s hs _ => ?_
  intro tail t ht
  exact readChunks_rest_none (p := p) _ _ _ a [] (Nat.lt_succ_self _) h (Nat.zero_le _) tail t
    ⟨by rw [ht, hs]; exact hbody, by rw [ht, hs]⟩

/-- Fuel beyond the length of the bytes does not matter. -/
theorem decodeChunks_fuel : ∀ (m n : Nat) (buffer : ByteBuffer) (bytes : Bytes), bytes.length < m → bytes.length < n →
    decodeChunks m buffer bytes = decodeChunks n buffer bytes
  | 0, _, _, _, hm, _ => absurd hm (Nat.not_lt_zero _)
  | _ + 1, 0, _, _, _, hn => absurd hn (Nat.not_lt_zero _)
  | m + 1, n + 1, buffer, bytes, hm, hn => by
    unfold decodeChunks
    split
    · rfl
    rename_i payload eol rest hchunk
    obtain ⟨a, rfl, hpos⟩ := chunkBytes_append hchunk
    rw [List.length_append] at hm hn
    split
    · rfl
    · rw [decodeChunks_fuel m n eol rest (by omega) (by omega)]

end FortiRdp.Http
