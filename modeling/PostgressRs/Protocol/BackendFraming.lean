import PostgressRs.Protocol.Backend

/-!
How a client cuts the stream of backend messages.
-/

namespace PostgressRs.Protocol.BackendFraming

open PostgressRs.Lib.ByteBuffer
open PostgressRs.Lib.Utf8
open PostgressRs.Protocol.Backend

section Cutting

/-- A message of the stream, and the rest: the length field counts itself and what
follows it. -/
def cutFrame : Bytes → Option (Bytes × Bytes)
  | [] => none
  | kind :: rest =>
      let length := fromBeBytes (rest.take 4)
      if rest.length < 4 ∨ length < 4 ∨ rest.length < length then none
      else some (kind :: rest.take length, rest.drop length)

def cutFrames : Nat → Bytes → Option (List Bytes)
  | _, [] => some []
  | 0, _ :: _ => none
  | fuel + 1, data => do
      let (frame, rest) ← cutFrame data
      let frames ← cutFrames fuel rest
      pure (frame :: frames)

/-- The messages of a stream; `none` when it does not end with a message. -/
def splitFrames (data : Bytes) : Option (List Bytes) := cutFrames data.length data

/-- A type byte, a length that counts what follows the type, and as many bytes. -/
def IsFrame (bytes : Bytes) : Prop :=
  ∃ kind body, bytes = framed kind body ∧ body.length + 4 < 2 ^ 32

theorem length_framed (kind : UInt8) (body : Bytes) :
    (framed kind body).length = body.length + 5 := by
  rw [framed, List.length_cons, List.length_append, toBeBytes_length]
  omega

theorem cutFrame_frame {frame : Bytes} (h : IsFrame frame) (rest : Bytes) :
    cutFrame (frame ++ rest) = some (frame, rest) := by
  obtain ⟨kind, body, rfl, hlt⟩ := h
  have hfield : fromBeBytes ((toBeBytes 4 (body.length + 4) ++ body ++ rest).take 4) =
      body.length + 4 := by
    rw [List.append_assoc, List.take_left' (toBeBytes_length 4 _), fromBeBytes_toBeBytes 4 _ hlt]
  have hlen : (toBeBytes 4 (body.length + 4) ++ body).length = body.length + 4 := by
    rw [List.length_append, toBeBytes_length]
    omega
  rw [framed, List.cons_append, cutFrame]
  simp only [hfield]
  rw [if_neg (by rw [List.length_append, hlen]; omega), List.take_left' hlen,
    List.drop_left' hlen]

theorem IsFrame.ne_nil {frame : Bytes} (h : IsFrame frame) : frame ≠ [] := by
  obtain ⟨kind, body, rfl, -⟩ := h
  exact List.cons_ne_nil _ _

theorem cutFrames_succ {fuel : Nat} {data : Bytes} (h : data ≠ []) :
    cutFrames (fuel + 1) data =
      (cutFrame data).bind fun cut => (cutFrames fuel cut.2).map (cut.1 :: ·) := by
  cases data with
  | nil => exact absurd rfl h
  | cons byte data =>
      rw [cutFrames.eq_3 _ _ h]
      simp only [Option.bind_eq_bind, Option.pure_def, Option.map_eq_bind, Function.comp_def]

theorem cutFrames_flatten {frames : List Bytes} (h : ∀ frame ∈ frames, IsFrame frame) {fuel : Nat}
    (hfuel : frames.length ≤ fuel) : cutFrames fuel frames.flatten = some frames := by
  induction frames generalizing fuel with
  | nil => cases fuel <;> rfl
  | cons frame frames ih =>
      obtain ⟨fuel, rfl⟩ : ∃ fuel', fuel = fuel' + 1 :=
        ⟨fuel - 1, by rw [List.length_cons] at hfuel; omega⟩
      have hframe := h frame List.mem_cons_self
      have hne : frame ++ frames.flatten ≠ [] := List.append_ne_nil_of_left_ne_nil hframe.ne_nil _
      have hrest := ih (fun frame' h' => h frame' (List.mem_cons_of_mem _ h'))
        (by rw [List.length_cons] at hfuel; omega : frames.length ≤ fuel)
      rw [List.flatten_cons, cutFrames_succ hne, cutFrame_frame hframe, Option.bind_some, hrest]
      rfl

theorem length_le_flatten {frames : List Bytes} (h : ∀ frame ∈ frames, frame ≠ []) :
    frames.length ≤ frames.flatten.length := by
  induction frames with
  | nil => exact Nat.zero_le _
  | cons frame frames ih =>
      have hpos := List.length_pos_iff.mpr (h frame List.mem_cons_self)
      have hrest := ih fun frame' h' => h frame' (List.mem_cons_of_mem _ h')
      rw [List.flatten_cons, List.length_append, List.length_cons]
      omega

/-- Frames are told apart. -/
theorem splitFrames_flatten {frames : List Bytes} (h : ∀ frame ∈ frames, IsFrame frame) :
    splitFrames frames.flatten = some frames :=
  cutFrames_flatten h (length_le_flatten fun frame hframe => (h frame hframe).ne_nil)

/-- A frame is as long as its length field says. -/
theorem cutFrame_eq_some {data frame rest : Bytes} (h : cutFrame data = some (frame, rest)) :
    data = frame ++ rest ∧ frame.length = fromBeBytes ((data.drop 1).take 4) + 1 := by
  cases data with
  | nil => cases h
  | cons kind data =>
      rw [cutFrame] at h
      split at h
      · cases h
      · rename_i hfits
        cases h
        constructor
        · rw [List.cons_append, List.take_append_drop]
        · rw [List.length_cons, List.length_take, List.drop_succ_cons, List.drop_zero]
          omega

/-- Each frame that is cut off has the length in its own first bytes. -/
theorem cutFrames_lengths {fuel : Nat} {frames : List Bytes}
    (hlong : ∀ frame ∈ frames, 5 ≤ frame.length)
    (h : cutFrames fuel frames.flatten = some frames) :
    ∀ frame ∈ frames, frame.length = fromBeBytes ((frame.drop 1).take 4) + 1 := by
  induction frames generalizing fuel with
  | nil =>
      intro frame hframe
      cases hframe
  | cons frame frames ih =>
      have hlen : 5 ≤ frame.length := hlong frame List.mem_cons_self
      have hne : frame ++ frames.flatten ≠ [] := by
        apply List.append_ne_nil_of_left_ne_nil
        apply List.ne_nil_of_length_pos
        omega
      rw [List.flatten_cons] at h
      cases fuel with
      | zero =>
          obtain ⟨byte, data, hdata⟩ := List.exists_cons_of_ne_nil hne
          rw [hdata, cutFrames] at h
          cases h
      | succ fuel =>
          rw [cutFrames_succ hne] at h
          obtain ⟨⟨first, rest⟩, hcut, hrest⟩ := Option.bind_eq_some_iff.mp h
          obtain ⟨frames', hframes', heq⟩ := Option.map_eq_some_iff.mp hrest
          cases heq
          dsimp only at hlen hcut hframes'
          obtain ⟨hdata, hfirst⟩ := cutFrame_eq_some hcut
          have hfield : ((first ++ frames.flatten).drop 1).take 4 = (first.drop 1).take 4 := by
            rw [List.drop_append_of_le_length (by omega), List.take_append_of_le_length
              (by rw [List.length_drop]; omega)]
          rw [hfield] at hfirst
          rw [← List.append_cancel_left hdata] at hframes'
          intro frame' hframe'
          rcases List.mem_cons.mp hframe' with rfl | htail
          · exact hfirst
          · exact ih (fun frame h' => hlong frame (List.mem_cons_of_mem _ h')) hframes' frame' htail

end Cutting

section Lengths

variable {m : BackendMessage}

/-- The length field has the number of bytes after the type byte. -/
def LengthExact (bytes : Bytes) : Prop :=
  fromBeBytes ((bytes.drop 1).take 4) = (bytes.drop 1).length

instance lengthExactDecidable (bytes : Bytes) : Decidable (LengthExact bytes) :=
  inferInstanceAs (Decidable (_ = _))

/-- The two kinds with a wrong constant. -/
def Miscounted (m : BackendMessage) : Prop := m = .authenticationOk ∨ m = .rowDescriptionEmpty

theorem frameOf_eq_framed (kind : UInt8) {length : Nat} {body : Bytes}
    (h : length = body.length + 4) : frameOf kind length body = framed kind body := by
  rw [frameOf, framed, h]

theorem encode_eq_framed (h : ¬Miscounted m) : ∃ kind body, m.encode = framed kind body := by
  cases m with
  | authenticationOk => exact absurd (.inl rfl) h
  | parameterStatus name value => exact ⟨_, _, rfl⟩
  | backendKeyData pid secret =>
      refine ⟨_, _, frameOf_eq_framed _ ?_⟩
      rw [List.length_append, toBeBytes_length, toBeBytes_length]
  | readyForQuery status => exact ⟨_, _, frameOf_eq_framed _ rfl⟩
  | rowDescription fields => exact ⟨_, _, rfl⟩
  | dataRow values => exact ⟨_, _, rfl⟩
  | commandComplete tag => exact ⟨_, _, rfl⟩
  | errorResponse fields => exact ⟨_, _, rfl⟩
  | noticeResponse fields => exact ⟨_, _, rfl⟩
  | parseComplete => exact ⟨_, _, frameOf_eq_framed _ rfl⟩
  | bindComplete => exact ⟨_, _, frameOf_eq_framed _ rfl⟩
  | closeComplete => exact ⟨_, _, frameOf_eq_framed _ rfl⟩
  | noData => exact ⟨_, _, frameOf_eq_framed _ rfl⟩
  | parameterDescription types => exact ⟨_, _, rfl⟩
  | rowDescriptionEmpty => exact absurd (.inr rfl) h

theorem isFrame_encode (h : ¬Miscounted m) (hsmall : m.encode.length < 2 ^ 32) :
    IsFrame m.encode := by
  obtain ⟨kind, body, heq⟩ := encode_eq_framed h
  refine ⟨kind, body, heq, ?_⟩
  rw [heq, length_framed] at hsmall
  omega

theorem length_encode (m : BackendMessage) : 5 ≤ m.encode.length := by
  by_cases h : Miscounted m
  · rcases h with rfl | rfl
    · decide
    · decide
  · obtain ⟨kind, body, heq⟩ := encode_eq_framed h
    rw [heq, length_framed]
    omega

theorem IsFrame.lengthExact {bytes : Bytes} (h : IsFrame bytes) : LengthExact bytes := by
  obtain ⟨kind, body, rfl, hlt⟩ := h
  rw [LengthExact, framed, List.drop_succ_cons, List.drop_zero,
    List.take_left' (toBeBytes_length 4 _), fromBeBytes_toBeBytes 4 _ hlt, List.length_append,
    toBeBytes_length]
  omega

theorem lengthExact_encode_iff (hsmall : m.encode.length < 2 ^ 32) :
    LengthExact m.encode ↔ ¬Miscounted m := by
  constructor
  · rintro hexact (rfl | rfl)
    · revert hexact
      decide
    · revert hexact
      decide
  · intro h
    exact (isFrame_encode h hsmall).lengthExact

theorem encodeMessages_eq (ms : List BackendMessage) :
    encodeMessages ms = (ms.map BackendMessage.encode).flatten := by
  rw [encodeMessages, List.flatMap_def]

theorem splitFrames_encode_iff {ms : List BackendMessage}
    (hsmall : ∀ m ∈ ms, m.encode.length < 2 ^ 32) :
    splitFrames (encodeMessages ms) = some (ms.map BackendMessage.encode) ↔
      ∀ m ∈ ms, ¬Miscounted m := by
  rw [encodeMessages_eq]
  constructor
  · intro hsplit m hm
    have hlong : ∀ frame ∈ ms.map BackendMessage.encode, 5 ≤ frame.length := by
      intro frame hframe
      obtain ⟨m', -, rfl⟩ := List.mem_map.mp hframe
      exact length_encode m'
    have hlength := cutFrames_lengths hlong hsplit m.encode (List.mem_map_of_mem hm)
    rw [← lengthExact_encode_iff (hsmall m hm), LengthExact, List.length_drop]
    omega
  · intro h
    apply splitFrames_flatten
    intro frame hframe
    obtain ⟨m, hm, rfl⟩ := List.mem_map.mp hframe
    exact isFrame_encode (h m hm) (hsmall m hm)

end Lengths

/-- Messages have exact lengths and are told apart when none of them is miscounted. -/
theorem framing_iff_not_miscounted (ms : List BackendMessage)
    (hsmall : ∀ m ∈ ms, m.encode.length < 2 ^ 31) :
    (∀ m ∈ ms, (LengthExact m.encode ↔ ¬Miscounted m)) ∧
      (splitFrames (encodeMessages ms) = some (ms.map BackendMessage.encode) ↔
        ∀ m ∈ ms, ¬Miscounted m) := by
  constructor
  · intro m hm
    have hlt := hsmall m hm
    exact lengthExact_encode_iff (by omega)
  · apply splitFrames_encode_iff
    intro m hm
    have hlt := hsmall m hm
    omega

theorem framing_iff_not_miscounted_row :
    LengthExact (BackendMessage.dataRow [none, some [1]]).encode ∧
      splitFrames (encodeMessages [.dataRow [none, some [1]], .parseComplete]) =
        some [(BackendMessage.dataRow [none, some [1]]).encode,
          BackendMessage.parseComplete.encode] := by
  have hframing := framing_iff_not_miscounted [.dataRow [none, some [1]], .parseComplete]
      (by decide)
  constructor
  · rw [hframing.1 _ List.mem_cons_self, Miscounted]
    decide
  · refine hframing.2.mpr ?_
    simp [Miscounted]

/-- The answer to a login has length 4 and eight bytes. -/
theorem framing_miscounts_authenticationOk :
    BackendMessage.authenticationOk.encode.length < 2 ^ 31 ∧
      ¬LengthExact BackendMessage.authenticationOk.encode ∧
      BackendMessage.rowDescriptionEmpty.encode.length < 2 ^ 31 ∧
      ¬LengthExact BackendMessage.rowDescriptionEmpty.encode ∧
      splitFrames (encodeMessages [.rowDescriptionEmpty, .parseComplete]) ≠
        some [BackendMessage.rowDescriptionEmpty.encode, BackendMessage.parseComplete.encode] := by
  refine ⟨by decide, by decide, by decide, by decide, by decide⟩

end PostgressRs.Protocol.BackendFraming
