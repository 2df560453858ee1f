import PostgressRs.Protocol.MessageEncoding

/-!
The read loop of `handle_connection` (`src/server.rs`): which messages of a stream
are processed, depending on where reads end.
-/

namespace PostgressRs.Protocol.StreamFraming

open PostgressRs.Lib.ByteBuffer
open PostgressRs.Lib.Utf8
open PostgressRs.Protocol.Backend
open PostgressRs.Protocol.DecodeTotality
open PostgressRs.Protocol.Frontend
open PostgressRs.Protocol.MessageEncoding

section Loop

/-- The messages of one read that are processed: up to a `Terminate`. -/
def processed : List Message → List Message
  | [] => []
  | .terminate :: _ => [.terminate]
  | m :: ms => m :: processed ms

/-- The messages that the connection processes when its reads return `chunks`.  Each
read is decoded by itself; a panic and a `Terminate` end the connection. -/
def handleConnection : List Bytes → List Message
  | [] => []
  | chunk :: chunks =>
      match decode chunk with
      | none => []
      | some messages =>
          if .terminate ∈ messages then processed messages
          else messages ++ handleConnection chunks

theorem processed_isPrefix (ms : List Message) : processed ms <+: ms := by
  induction ms with
  | nil => exact List.prefix_rfl
  | cons m ms ih =>
      unfold processed
      split
      · rename_i heq
        cases heq
      · rename_i heq
        cases heq
        exact ⟨ms, rfl⟩
      · rename_i heq
        cases heq
        exact (List.prefix_cons_inj m).mpr ih

/-- Nothing is processed after a `Terminate`. -/
theorem terminate_last_processed (ms : List Message) :
    ∀ m ∈ (processed ms).dropLast, m ≠ .terminate := by
  induction ms with
  | nil => simp [processed]
  | cons m ms ih =>
      unfold processed
      split
      · simp
      · simp
      · rename_i m' ms' hne heq
        cases heq
        intro m' hm'
        cases hrest : processed ms with
        | nil =>
            rw [hrest] at hm'
            simp at hm'
        | cons first rest =>
            rw [hrest, List.dropLast_cons_of_ne_nil (by simp)] at hm'
            rcases List.mem_cons.mp hm' with rfl | hm'
            · exact hne
            · exact ih m' (by rw [hrest]; exact hm')

end Loop

section Reads

/-- The messages are found in this order in the stream, with parts of it left out. -/
inductive Reads : Bytes → List Message → Prop
  | done (rest : Bytes) : Reads rest []
  | skip (dropped : Bytes) {rest : Bytes} {ms : List Message} : Reads rest ms →
      Reads (dropped ++ rest) ms
  | frame {msgType high low : UInt8} {body rest : Bytes} {m : Message} {ms : List Message} :
      decodeBody msgType body = some (some m) → body.length ≤ 8187 → Reads rest ms →
      Reads (msgType :: 0 :: 0 :: high :: low :: (body ++ rest)) (m :: ms)

theorem Reads.of_prefix {stream : Bytes} {ms ms' : List Message} (h : Reads stream ms)
    (hsub : ms' <+: ms) : Reads stream ms' := by
  induction h generalizing ms' with
  | done rest =>
      rw [List.prefix_nil.mp hsub]
      exact .done rest
  | skip dropped _ ih => exact .skip dropped (ih hsub)
  | frame hbody hlen _ ih =>
      cases ms' with
      | nil => exact .done _
      | cons m' ms' =>
          obtain ⟨rfl, hrest⟩ := List.cons_prefix_cons.mp hsub
          exact .frame hbody hlen (ih hrest)

theorem toBeBytes_small {n : Nat} (hn : n < 2 ^ 16) :
    toBeBytes 4 n = [0, 0, UInt8.ofNat (n / 256), UInt8.ofNat n] := by
  have hhigh : n / 256 / 256 = 0 := by omega
  simp [toBeBytes, toLeBytes, hhigh]

/-- The length of a message that fits into a read. -/
theorem lengthField_small {length : Bytes} (hlen : length.length = 4)
    (hsmall : lengthField length < 2 ^ 16) :
    ∃ high low, length = [0, 0, high, low] := by
  have hword : fromBeBytes length < 2 ^ 16 := by
    unfold lengthField at hsmall
    dsimp only at hsmall
    split at hsmall <;> omega
  have hbytes := toBeBytes_fromBeBytes length
  rw [hlen, toBeBytes_small hword] at hbytes
  exact ⟨_, _, hbytes.symm⟩

theorem reads_decodeFrom {fuel pos : Nat} {bytes rest : Bytes} {messages ms : List Message}
    (h : decodeFrom fuel pos bytes = some messages) (hlen : bytes.length ≤ 8192)
    (hrest : Reads rest ms) : Reads (bytes ++ rest) (messages ++ ms) := by
  induction fuel generalizing pos bytes messages with
  | zero => cases h
  | succ fuel ih =>
      rcases Nat.lt_trichotomy bytes.length 4 with hshort | hfour | hlong
      · rw [decodeFrom_short fuel pos hshort] at h
        cases h
        exact .skip bytes hrest
      · rw [decodeFrom_four (fuel + 1) pos hfour] at h
        cases h
      obtain ⟨msgType, length, bytes', rfl, hlength⟩ := exists_header hlong
      rw [decodeFrom_message fuel pos msgType hlength bytes'] at h
      split at h
      · cases h
        exact .skip _ hrest
      split at h
      · cases h
      split at h
      · cases h
        exact .skip _ hrest
      rename_i hfour hend hthere
      obtain ⟨msg, hmsg, h⟩ := Option.bind_eq_some_iff.mp h
      obtain ⟨messages', hmessages', heq⟩ := Option.bind_eq_some_iff.mp h
      cases heq
      simp only [List.length_cons, List.length_append, hlength] at hlen
      obtain ⟨high, low, rfl⟩ := lengthField_small hlength (by omega)
      have hsplit := List.take_append_drop (lengthField [0, 0, high, low] - 4) bytes'
      have hbody : (bytes'.take (lengthField [0, 0, high, low] - 4)).length ≤ 8187 := by
        rw [List.length_take]
        omega
      have htail := ih hmessages' (by rw [List.length_drop]; omega)
      generalize bytes'.take (lengthField [0, 0, high, low] - 4) = body at hmsg hsplit hbody
      generalize bytes'.drop (lengthField [0, 0, high, low] - 4) = bytes'' at hsplit htail
      subst hsplit
      simp only [List.cons_append, List.nil_append, List.append_assoc]
      cases msg with
      | none =>
          have hskip := Reads.skip (msgType :: 0 :: 0 :: high :: low :: body) htail
          simpa using hskip
      | some m => exact .frame hmsg hbody htail

/-- What is processed is found in the stream. -/
theorem reads_handleConnection {chunks : List Bytes} (h : ∀ chunk ∈ chunks, chunk.length ≤ 8192) :
    Reads chunks.flatten (handleConnection chunks) := by
  induction chunks with
  | nil => exact .done _
  | cons chunk chunks ih =>
      have hchunk := h chunk List.mem_cons_self
      rw [List.flatten_cons]
      unfold handleConnection
      cases hdecode : decode chunk with
      | none => exact .done _
      | some messages =>
          dsimp only
          split
          · have hreads := reads_decodeFrom hdecode hchunk (.done chunks.flatten)
            rw [List.append_nil] at hreads
            exact hreads.of_prefix (processed_isPrefix messages)
          · exact reads_decodeFrom hdecode hchunk
              (ih fun chunk' hchunk' => h chunk' (List.mem_cons_of_mem _ hchunk'))

end Reads

section Rereading

theorem append_zero_cases {text rest front tail : Bytes} (h : 0 ∉ text)
    (heq : text ++ 0 :: rest = front ++ 0 :: tail) :
    front = text ∧ rest = tail ∨ ∃ middle, front = text ++ 0 :: middle ∧
      rest = middle ++ 0 :: tail := by
  rcases List.append_eq_append_iff.mp heq with ⟨middle, hfront, hrest⟩ | ⟨middle, htext, htail⟩
  · cases middle with
    | nil =>
        cases hrest
        exact Or.inl ⟨by rw [hfront, List.append_nil], rfl⟩
    | cons byte middle =>
        cases hrest
        exact Or.inr ⟨middle, hfront, rfl⟩
  · cases middle with
    | nil =>
        cases htail
        exact Or.inl ⟨by rw [htext, List.append_nil], rfl⟩
    | cons byte middle =>
        cases htail
        exact absurd (by rw [htext]; simp) h

/-- A message's length field is found in its last two bytes or in the body behind
it, if its own type is found a second time. -/
theorem header_cases {msgType high low h l : UInt8} {dropped tail body : Bytes}
    (htype : msgType ≠ 0) (hne : dropped ≠ [])
    (heq : msgType :: 0 :: 0 :: h :: l :: body =
      dropped ++ msgType :: 0 :: 0 :: high :: low :: tail) :
    h = msgType ∧ body = 0 :: high :: low :: tail ∨
      ∃ front, body = front ++ 0 :: 0 :: high :: low :: tail := by
  rcases dropped with _ | ⟨d₀, _ | ⟨d₁, _ | ⟨d₂, _ | ⟨d₃, _ | ⟨d₄, dropped⟩⟩⟩⟩⟩
  · exact absurd rfl hne
  · simp only [List.singleton_append, List.cons.injEq] at heq
    exact absurd heq.2.1.symm htype
  · simp only [List.cons_append, List.nil_append, List.cons.injEq] at heq
    exact absurd heq.2.2.1.symm htype
  · simp only [List.cons_append, List.nil_append, List.cons.injEq] at heq
    exact Or.inl ⟨heq.2.2.2.1, heq.2.2.2.2.2⟩
  · simp only [List.cons_append, List.nil_append, List.cons.injEq] at heq
    exact Or.inr ⟨[], heq.2.2.2.2.2⟩
  · simp only [List.cons_append, List.cons.injEq] at heq
    exact Or.inr ⟨dropped ++ [msgType], by rw [heq.2.2.2.2.2]; simp⟩

theorem cstring_split {s : String} (h : NulFree s) {front tail : Bytes}
    (heq : cstring s = front ++ 0 :: tail) : front = asBytes s ∧ tail = [] := by
  rcases append_zero_cases h heq with ⟨hfront, hrest⟩ | ⟨middle, -, hrest⟩
  · exact ⟨hfront, hrest.symm⟩
  · simp at hrest

variable {first second tail text₁ text₂ more : Bytes} {high low : UInt8}

theorem twoTexts_not_front (hfirst : 0 ∉ first) (hsecond : 0 ∉ second)
    (hempty : first = [] → text₁ = []) (hsize : tail.length ≤ more.length)
    (heq : first ++ 0 :: (second ++ 0 :: tail) =
      0 :: high :: low :: (text₁ ++ 0 :: (text₂ ++ 0 :: more))) : False := by
  cases first with
  | cons byte first =>
      rw [(List.cons.inj heq).1] at hfirst
      exact hfirst List.mem_cons_self
  | nil =>
      rw [hempty rfl] at heq
      simp only [List.nil_append, List.cons.injEq, true_and] at heq
      have hsplit : second ++ 0 :: tail = [high, low] ++ 0 :: (text₂ ++ 0 :: more) := heq
      rcases append_zero_cases hsecond hsplit with ⟨-, htail⟩ | ⟨middle, -, htail⟩
      · have hlen := congrArg List.length htail
        simp only [List.length_append, List.length_cons] at hlen
        omega
      · have hlen := congrArg List.length htail
        simp only [List.length_append, List.length_cons] at hlen
        omega

theorem twoTexts_not_behind {front : Bytes} (hfirst : 0 ∉ first) (hsecond : 0 ∉ second)
    (hsize : tail.length ≤ more.length)
    (heq : first ++ 0 :: (second ++ 0 :: tail) =
      front ++ 0 :: 0 :: high :: low :: (text₁ ++ 0 :: (text₂ ++ 0 :: more))) : False := by
  rcases append_zero_cases hfirst heq with ⟨-, hrest⟩ | ⟨middle, -, hrest⟩
  · have hsplit : second ++ 0 :: tail =
        [] ++ 0 :: high :: low :: (text₁ ++ 0 :: (text₂ ++ 0 :: more)) := hrest
    rcases append_zero_cases hsecond hsplit with ⟨-, htail⟩ | ⟨middle, hnil, -⟩
    · have hlen := congrArg List.length htail
      simp only [List.length_append, List.length_cons] at hlen
      omega
    · simp at hnil
  · rcases append_zero_cases hsecond hrest with ⟨-, htail⟩ | ⟨middle', -, htail⟩
    · have hlen := congrArg List.length htail
      simp only [List.length_append, List.length_cons] at hlen
      omega
    · have hlen := congrArg List.length htail
      simp only [List.length_append, List.length_cons] at hlen
      omega

theorem lossy_empty {s : String} {text : Bytes} (h : fromUtf8Lossy text = s)
    (hempty : asBytes s = []) : text = [] := by
  by_contra hne
  apply fromUtf8Lossy_ne_empty hne
  rw [h, ← fromUtf8Lossy_asBytes s, hempty]
  rfl

/-- The two texts of a message and what follows, found behind a header in its own body. -/
theorem twoTexts_not_reread {first second : String} {tail body rest : Bytes}
    {high low : UInt8} (hfirst : NulFree first) (hsecond : NulFree second)
    (hbody : TwoTexts first second tail.length body)
    (heq : cstring first ++ (cstring second ++ tail) = 0 :: high :: low :: (body ++ rest) ∨
      ∃ front, cstring first ++ (cstring second ++ tail) =
        front ++ 0 :: 0 :: high :: low :: (body ++ rest)) : False := by
  obtain ⟨text₁, text₂, more, rfl, htext₁, -, hsize⟩ := hbody
  have hsize' : tail.length ≤ (more ++ rest).length := by
    rw [List.length_append]
    omega
  simp only [cstring, List.append_assoc, List.cons_append] at heq
  rcases heq with heq | ⟨front, heq⟩
  · exact twoTexts_not_front hfirst hsecond (lossy_empty htext₁) hsize' heq
  · exact twoTexts_not_behind hfirst hsecond hsize' heq

/-- The same of the one text of `Execute`. -/
theorem oneText_not_reread {text : String} {tail body rest : Bytes} {high low : UInt8}
    (htext : NulFree text) (hbody : tail.length < body.length)
    (heq : cstring text ++ tail = 0 :: high :: low :: (body ++ rest) ∨
      ∃ front, cstring text ++ tail =
        front ++ 0 :: 0 :: high :: low :: (body ++ rest)) : False := by
  have hshort : ∀ front', tail ≠ front' ++ high :: low :: (body ++ rest) := by
    intro front' htail
    have hlen := congrArg List.length htail
    simp only [List.length_append, List.length_cons] at hlen
    omega
  simp only [cstring, List.append_assoc, List.singleton_append] at heq
  rcases heq with heq | ⟨front, heq⟩
  · have hsplit : asBytes text ++ 0 :: tail = [] ++ 0 :: high :: low :: (body ++ rest) := heq
    rcases append_zero_cases htext hsplit with ⟨-, htail⟩ | ⟨middle, hnil, -⟩
    · exact hshort [] htail
    · simp at hnil
  · rcases append_zero_cases htext heq with ⟨-, htail⟩ | ⟨middle, -, htail⟩
    · exact hshort [0] htail
    · refine hshort (middle ++ [0, 0]) ?_
      simpa using htail

/-- The kind and the name of a message, found behind a header in its own body. -/
theorem named_not_reread {kind : UInt8} {name : String} {more rest : Bytes}
    {high low : UInt8} (hname : NulFree name)
    (heq : 4 < (cstring name).length ∧
        kind :: cstring name = 0 :: high :: low :: (kind :: more ++ rest) ∨
      ∃ front, kind :: cstring name = front ++ 0 :: 0 :: high :: low :: (kind :: more ++ rest)) :
    False := by
  rcases heq with ⟨hlong, heq⟩ | ⟨front, heq⟩
  · obtain ⟨rfl, hrest⟩ := List.cons.inj heq
    have hsplit : cstring name = [high, low] ++ 0 :: (more ++ rest) := hrest
    obtain ⟨hfront, htail⟩ := cstring_split hname hsplit
    rw [cstring, ← hfront] at hlong
    simp at hlong
  · cases front with
    | nil =>
        obtain ⟨-, hrest⟩ := List.cons.inj heq
        have hsplit : cstring name = [] ++ 0 :: high :: low :: (kind :: more ++ rest) := hrest
        obtain ⟨-, htail⟩ := cstring_split hname hsplit
        cases htail
    | cons byte front =>
        obtain ⟨-, hrest⟩ := List.cons.inj heq
        obtain ⟨-, htail⟩ := cstring_split hname hrest
        cases htail

/-- A body does not hold a header and, behind it, a body of the same message. -/
theorem body_not_reread {m : Message} {body rest : Bytes} {high low : UInt8}
    (hm : WellFormed m) (hbody : Decoded body m)
    (heq : 8 < (messageBody m).length ∧ messageBody m = 0 :: high :: low :: (body ++ rest) ∨
      ∃ front, messageBody m = front ++ 0 :: 0 :: high :: low :: (body ++ rest)) : False := by
  cases m with
  | startupMessage protocolVersion parameters => exact hbody
  | query sql =>
      rcases heq with ⟨-, heq⟩ | ⟨front, heq⟩
      · have hsplit : cstring sql = [] ++ 0 :: high :: low :: (body ++ rest) := heq
        obtain ⟨-, htail⟩ := cstring_split hm.texts hsplit
        cases htail
      · obtain ⟨-, htail⟩ := cstring_split hm.texts heq
        cases htail
  | parse name sql parameterTypes =>
      exact twoTexts_not_reread hm.texts.1 hm.texts.2 hbody (heq.imp_left And.right)
  | bind portal statement parameterFormats parameterValues resultFormats =>
      exact twoTexts_not_reread hm.texts.1 hm.texts.2 hbody (heq.imp_left And.right)
  | describe kind name =>
      obtain ⟨more, rfl, -⟩ := hbody
      refine named_not_reread hm.texts (heq.imp_left ?_)
      rintro ⟨hlong, heq⟩
      simp only [messageBody, List.length_cons] at hlong
      exact ⟨by omega, heq⟩
  | execute portal maxRows =>
      obtain ⟨text, more, rfl, -, hsize⟩ := hbody
      refine oneText_not_reread hm.texts ?_ (heq.imp_left And.right)
      rw [encodeInt32, toBeBytes_length, List.length_append, List.length_cons]
      omega
  | sync =>
      rcases heq with ⟨hlong, -⟩ | ⟨front, heq⟩
      · simp [messageBody] at hlong
      · simp [messageBody] at heq
  | close kind name =>
      obtain ⟨more, rfl, -⟩ := hbody
      refine named_not_reread hm.texts (heq.imp_left ?_)
      rintro ⟨hlong, heq⟩
      simp only [messageBody, List.length_cons] at hlong
      exact ⟨by omega, heq⟩
  | flush =>
      rcases heq with ⟨hlong, -⟩ | ⟨front, heq⟩
      · simp [messageBody] at hlong
      · simp [messageBody] at heq
  | terminate =>
      rcases heq with ⟨hlong, -⟩ | ⟨front, heq⟩
      · simp [messageBody] at hlong
      · simp [messageBody] at heq

theorem messageType_ne_zero {m : Message} (h : isStartup m = false) : messageType m ≠ 0 := by
  cases m with
  | startupMessage protocolVersion parameters => cases h
  | _ => simp [messageType]

/-- No frame inside a message, other than the message itself, is decoded to it. -/
theorem frame_not_reread {m : Message} {msgType high low : UInt8} {dropped body rest : Bytes}
    (hm : Framed m) (hne : dropped ≠ []) (hbody : decodeBody msgType body = some (some m))
    (hlen : body.length ≤ 8187)
    (heq : encode m = dropped ++ msgType :: 0 :: 0 :: high :: low :: (body ++ rest)) : False := by
  obtain ⟨hdecoded, rfl⟩ := decodeBody_eq_some hbody
  have hsize := length_messageBody hdecoded
  have htype := messageType_ne_zero hm.typed
  rw [hm.encode_eq, toBeBytes_small (by omega)] at heq
  rcases header_cases htype hne heq with ⟨hhigh, hfront⟩ | ⟨front, hfront⟩
  · have hlong : 8 < (messageBody m).length := by
      by_contra hshort
      have hzero : ((messageBody m).length + 4) / 256 = 0 := by omega
      rw [hzero] at hhigh
      exact htype hhigh.symm
    exact body_not_reread hm.wellFormed hdecoded (Or.inl ⟨hlong, hfront⟩)
  · exact body_not_reread hm.wellFormed hdecoded (Or.inr ⟨front, hfront⟩)

/-- Once a part of a stream is lost, not all its messages are found in the rest. -/
theorem reads_not_shifted {stream dropped : Bytes} {ms : List Message} (h : Reads stream ms)
    (hms : ∀ m ∈ ms, Framed m) (hne : dropped ≠ []) : dropped ++ stream ≠ encodeAll ms := by
  induction h generalizing dropped with
  | done rest =>
      intro heq
      exact hne (List.append_eq_nil_iff.mp heq).1
  | skip lost _ ih =>
      intro heq
      rw [← List.append_assoc] at heq
      exact ih hms (by simp [hne]) heq
  | @frame msgType high low body rest m ms hbody hlen _ ih =>
      intro heq
      have hm := hms m List.mem_cons_self
      rw [encodeAll_cons] at heq
      have hsplit : (dropped ++ msgType :: 0 :: 0 :: high :: low :: body) ++ rest =
          encode m ++ encodeAll ms := by
        rw [← heq]
        simp
      rcases List.append_eq_append_iff.mp hsplit with ⟨behind, henc, -⟩ | ⟨lost, hlost, hrest⟩
      · have hinside : encode m =
            dropped ++ msgType :: 0 :: 0 :: high :: low :: (body ++ behind) := by
          rw [henc]
          simp
        exact frame_not_reread hm hne hbody hlen hinside
      · cases lost with
        | nil =>
            rw [List.append_nil] at hlost
            have hinside : encode m =
                dropped ++ msgType :: 0 :: 0 :: high :: low :: (body ++ []) := by
              rw [← hlost, List.append_nil]
            exact frame_not_reread hm hne hbody hlen hinside
        | cons byte lost =>
            exact ih (fun m' hm' => hms m' (List.mem_cons_of_mem _ hm')) (by simp) hrest.symm

end Rereading

section Framing

/-- Every read ends where a message ends. -/
def Aligned (chunks : List Bytes) (ms : List Message) : Prop :=
  ∃ groups : List (List Message), groups.flatten = ms ∧ chunks = groups.map encodeAll

theorem reads_typed {stream : Bytes} {ms : List Message} (h : Reads stream ms) :
    ∀ m ∈ ms, isStartup m = false := by
  induction h with
  | done rest => simp
  | skip dropped _ ih => exact ih
  | @frame _ _ _ _ _ m _ hbody _ _ ih =>
      intro m' hm'
      rcases List.mem_cons.mp hm' with rfl | hm'
      · obtain ⟨hdecoded, -⟩ := decodeBody_eq_some hbody
        cases m' with
        | startupMessage protocolVersion parameters => exact hdecoded.elim
        | _ => rfl
      · exact ih m' hm'

theorem terminate_last {chunks : List Bytes} :
    ∀ m ∈ (handleConnection chunks).dropLast, m ≠ .terminate := by
  induction chunks with
  | nil => simp [handleConnection]
  | cons chunk chunks ih =>
      unfold handleConnection
      cases decode chunk with
      | none => simp
      | some messages =>
          dsimp only
          split
          · exact terminate_last_processed messages
          · rename_i hnot
            intro m hm
            cases hrest : handleConnection chunks with
            | nil =>
                rw [hrest, List.append_nil] at hm
                rintro rfl
                exact hnot ((List.dropLast_sublist _).subset hm)
            | cons first rest =>
                rw [hrest, List.dropLast_append_of_ne_nil (by simp)] at hm
                rcases List.mem_append.mp hm with hm | hm
                · rintro rfl
                  exact hnot hm
                · exact ih m (by rw [hrest]; exact hm)

theorem processed_eq {ms : List Message} (h : ∀ m ∈ ms.dropLast, m ≠ .terminate) :
    processed ms = ms := by
  induction ms with
  | nil => rfl
  | cons m ms ih =>
      cases ms with
      | nil =>
          unfold processed
          split <;> simp_all [processed]
      | cons m' ms =>
          rw [List.dropLast_cons_of_ne_nil (by simp)] at h
          have hm := h m List.mem_cons_self
          have hrest := ih fun m'' hm'' => h m'' (List.mem_cons_of_mem _ hm'')
          unfold processed
          split
          · rename_i heq
            cases heq
          · rename_i heq
            cases heq
            exact absurd rfl hm
          · rename_i heq
            cases heq
            rw [hrest]

variable {ms : List Message} {chunks : List Bytes}

/-- A part of the stream is some messages and the beginning of the next one. -/
theorem exists_split (hms : ∀ m ∈ ms, Framed m) {chunk rest : Bytes}
    (h : chunk ++ rest = encodeAll ms) :
    ∃ group ms' part, ms = group ++ ms' ∧ chunk = encodeAll group ++ part ∧
      part ++ rest = encodeAll ms' ∧
      (part = [] ∨ ∃ m ms'', ms' = m :: ms'' ∧ part.length < (encode m).length) := by
  induction ms generalizing chunk with
  | nil =>
      have hnil : chunk = [] := (List.append_eq_nil_iff.mp h).1
      exact ⟨[], [], [], rfl, by rw [hnil]; rfl, by rw [hnil] at h; exact h, Or.inl rfl⟩
  | cons m ms ih =>
      by_cases hshort : chunk.length < (encode m).length
      · exact ⟨[], m :: ms, chunk, rfl, rfl, h, Or.inr ⟨m, ms, rfl, hshort⟩⟩
      · rw [encodeAll_cons] at h
        obtain ⟨chunk', rfl⟩ : ∃ chunk', chunk = encode m ++ chunk' := by
          rcases List.append_eq_append_iff.mp h with ⟨behind, henc, -⟩ | ⟨chunk', hchunk, -⟩
          · have hlen := congrArg List.length henc
            rw [List.length_append] at hlen
            have hnil : behind = [] := List.length_eq_zero_iff.mp (by omega)
            exact ⟨[], by rw [henc, hnil, List.append_nil, List.append_nil]⟩
          · exact ⟨chunk', hchunk⟩
        rw [List.append_assoc] at h
        obtain ⟨group, ms', part, rfl, rfl, hpart, hnext⟩ :=
          ih (fun m' hm' => hms m' (List.mem_cons_of_mem _ hm')) (List.append_cancel_left h)
        exact ⟨m :: group, ms', part, rfl, by rw [encodeAll_cons, List.append_assoc], hpart, hnext⟩

/-- The beginning of a message is dropped, or it makes the decoder panic. -/
theorem decodeFrom_part {m : Message} (hm : Framed m) {part behind : Bytes} {fuel pos : Nat}
    (h : encode m = part ++ behind) (hshort : part.length < (encode m).length)
    (hfuel : part.length < fuel) (hend : pos + (encode m).length < 2 ^ 63) :
    decodeFrom fuel pos part = none ∨ decodeFrom fuel pos part = some [] := by
  obtain ⟨fuel, rfl⟩ : ∃ fuel', fuel = fuel' + 1 := ⟨fuel - 1, by omega⟩
  rcases Nat.lt_trichotomy part.length 4 with hless | hfour | hlong
  · exact Or.inr (decodeFrom_short fuel pos hless)
  · exact Or.inl (decodeFrom_four (fuel + 1) pos hfour)
  obtain ⟨msgType, length, part', rfl, hlength⟩ := exists_header hlong
  have hlen := hm.length_encode
  rw [hm.encode_eq, List.cons_append, List.append_assoc] at h
  obtain ⟨-, hfield, -⟩ := header_injective (toBeBytes_length 4 _) hlength h
  rw [decodeFrom_message fuel pos msgType hlength, ← hfield,
    lengthField_toBeBytes hm.wellFormed.length_lt]
  simp only [List.length_cons, List.length_append, hlength] at hshort
  rw [if_neg (by omega), if_neg (by omega), if_pos (by omega)]
  exact Or.inr rfl

/-- What a read returns: between one byte and the size of the buffer. -/
def ReadSize (chunk : Bytes) : Prop := chunk ≠ [] ∧ chunk.length ≤ 8192

theorem decode_group {group : List Message} (hgroup : ∀ m ∈ group, Framed m)
    (hsize : (encodeAll group).length ≤ 8192) : decode (encodeAll group) = some group := by
  have hend : (encodeAll group ++ []).length < 2 ^ 63 := by
    rw [List.append_nil]
    omega
  obtain ⟨fuel, hfuel, hdecode⟩ := decode_encodeAll hgroup hend
  obtain ⟨fuel, rfl⟩ : ∃ fuel', fuel = fuel' + 1 := ⟨fuel - 1, by omega⟩
  rw [List.append_nil, decodeFrom_short fuel _ (by decide), Option.map_some, List.append_nil]
    at hdecode
  exact hdecode

/-- With whole messages in every read, all are processed. -/
theorem handleConnection_aligned {groups : List (List Message)}
    (hms : ∀ m ∈ groups.flatten, Framed m)
    (hsize : ∀ chunk ∈ groups.map encodeAll, ReadSize chunk)
    (hlast : ∀ m ∈ groups.flatten.dropLast, m ≠ .terminate) :
    handleConnection (groups.map encodeAll) = groups.flatten := by
  induction groups with
  | nil => rfl
  | cons group groups ih =>
      rw [List.flatten_cons] at hms hlast ⊢
      rw [List.map_cons] at hsize ⊢
      have hdecode := decode_group (fun m hm => hms m (List.mem_append_left _ hm))
        (hsize _ List.mem_cons_self).2
      simp only [handleConnection, hdecode]
      split
      · rename_i hterminate
        cases hrest : groups.flatten with
        | nil =>
            rw [hrest, List.append_nil] at hlast
            rw [List.append_nil]
            exact processed_eq hlast
        | cons first rest =>
            rw [hrest, List.dropLast_append_of_ne_nil (by simp)] at hlast
            exact absurd rfl (hlast _ (List.mem_append_left _ hterminate))
      · congr 1
        refine ih (fun m hm => hms m (List.mem_append_right _ hm))
          (fun chunk hchunk => hsize chunk (List.mem_cons_of_mem _ hchunk)) ?_
        intro m hm
        refine hlast m ?_
        cases hrest : groups.flatten with
        | nil =>
            rw [hrest] at hm
            cases hm
        | cons first rest =>
            rw [List.dropLast_append_of_ne_nil (by simp), ← hrest]
            exact List.mem_append_right _ hm

theorem encodeAll_eq_nil (hms : ∀ m ∈ ms, Framed m) (h : encodeAll ms = []) : ms = [] := by
  have hle := length_le_encodeAll hms
  rw [h] at hle
  exact List.length_eq_zero_iff.mp (Nat.le_zero.mp hle)

/-- If all messages are processed, no message was cut. -/
theorem aligned_of_handleConnection (hms : ∀ m ∈ ms, Framed m)
    (hsize : ∀ chunk ∈ chunks, ReadSize chunk) (hstream : chunks.flatten = encodeAll ms)
    (h : handleConnection chunks = ms) : Aligned chunks ms := by
  induction chunks generalizing ms with
  | nil => exact ⟨[], by rw [encodeAll_eq_nil hms hstream.symm]; rfl, rfl⟩
  | cons chunk chunks ih =>
      have hchunk := hsize chunk List.mem_cons_self
      have hsizes : ∀ chunk ∈ chunks, ReadSize chunk :=
        fun chunk' hchunk' => hsize chunk' (List.mem_cons_of_mem _ hchunk')
      rw [List.flatten_cons] at hstream
      obtain ⟨group, ms', part, rfl, rfl, hpart, hnext⟩ := exists_split hms hstream
      have hgroup : ∀ m ∈ group, Framed m := fun m hm => hms m (List.mem_append_left _ hm)
      have hms' : ∀ m ∈ ms', Framed m := fun m hm => hms m (List.mem_append_right _ hm)
      have hlen := hchunk.2
      rw [List.length_append] at hlen
      by_cases hempty : part = []
      · subst hempty
        rw [List.append_nil] at h ⊢
        simp only [handleConnection, decode_group hgroup (by omega)] at h
        split at h
        · have hle := (processed_isPrefix group).length_le
          rw [h, List.length_append] at hle
          have hnil : ms' = [] := List.length_eq_zero_iff.mp (by omega)
          subst hnil
          have hchunks : chunks = [] := by
            cases chunks with
            | nil => rfl
            | cons chunk' chunks =>
                have hnil : (chunk' :: chunks).flatten = [] := hpart
                rw [List.flatten_cons] at hnil
                exact absurd (List.append_eq_nil_iff.mp hnil).1 (hsizes chunk' List.mem_cons_self).1
          subst hchunks
          exact ⟨[group], by simp, rfl⟩
        · obtain ⟨groups, hflatten, hmap⟩ := ih hms' hsizes hpart (List.append_cancel_left h)
          exact ⟨group :: groups, by rw [List.flatten_cons, hflatten],
            by rw [List.map_cons, hmap]⟩
      · -- the lost part of a message cannot be made up for
        obtain ⟨m, ms'', rfl, hshort⟩ := hnext.resolve_left hempty
        have hm := hms' m List.mem_cons_self
        have hencode := hm.length_encode
        have hlt := hm.wellFormed.length_lt
        obtain ⟨behind, hbehind⟩ : ∃ behind, encode m = part ++ behind := by
          rw [encodeAll_cons] at hpart
          rcases List.append_eq_append_iff.mp hpart with ⟨behind, henc, -⟩ | ⟨extra, hextra, -⟩
          · exact ⟨behind, henc⟩
          · have hle := congrArg List.length hextra
            rw [List.length_append] at hle
            omega
        have hend : (encodeAll group ++ part).length < 2 ^ 63 := by
          rw [List.length_append]
          omega
        obtain ⟨fuel, hfuel, hdecode⟩ := decode_encodeAll hgroup hend
        simp only [handleConnection, hdecode] at h
        rcases decodeFrom_part hm hbehind hshort hfuel
          (by omega : (encodeAll group).length + _ < 2 ^ 63) with hnone | hsome
        · rw [hnone] at h
          simp at h
        · rw [hsome, Option.map_some, List.append_nil] at h
          dsimp only at h
          split at h
          · have hle := (processed_isPrefix group).length_le
            rw [h, List.length_append, List.length_cons] at hle
            omega
          · have hreads := reads_handleConnection fun chunk' hchunk' => (hsizes chunk' hchunk').2
            rw [List.append_cancel_left h] at hreads
            exact absurd hpart (reads_not_shifted hreads hms' hempty)

/-- All messages of a stream are processed, in order, exactly if every read ends
where a message ends, no startup message is among them and none follows a
`Terminate`. -/
theorem handleConnection_eq_iff (hms : ∀ m ∈ ms, WellFormed m)
    (hstream : chunks.flatten = encodeAll ms) (hsize : ∀ chunk ∈ chunks, ReadSize chunk) :
    handleConnection chunks = ms ↔
      Aligned chunks ms ∧ (∀ m ∈ ms, isStartup m = false) ∧
        ∀ m ∈ ms.dropLast, m ≠ .terminate := by
  constructor
  · intro h
    have htyped := reads_typed (reads_handleConnection fun chunk hchunk => (hsize chunk hchunk).2)
    have hlast := @terminate_last chunks
    rw [h] at htyped hlast
    exact ⟨aligned_of_handleConnection (fun m hm => ⟨hms m hm, htyped m hm⟩) hsize hstream h,
      htyped, hlast⟩
  · rintro ⟨⟨groups, rfl, rfl⟩, htyped, hlast⟩
    exact handleConnection_aligned (fun m hm => ⟨hms m hm, htyped m hm⟩) hsize hlast

end Framing

theorem wellFormed_sync : WellFormed .sync := ⟨trivial, trivial, by decide⟩

theorem handleConnection_eq_iff_syncs :
    handleConnection [encodeAll [.sync, .sync], encodeAll [.sync]] = [.sync, .sync, .sync] := by
  have hstream : [encodeAll [.sync, .sync], encodeAll [.sync]].flatten =
      encodeAll [.sync, .sync, .sync] := rfl
  refine (handleConnection_eq_iff ?_ hstream ?_).mpr
    ⟨⟨[[.sync, .sync], [.sync]], rfl, rfl⟩, by decide, by decide⟩
  · simp [wellFormed_sync]
  · simp only [List.mem_cons, List.not_mem_nil, or_false, forall_eq_or_imp, forall_eq, ReadSize]
    decide

/-- A `Sync` in two reads is not processed. -/
theorem handleConnection_cut :
    (∀ m ∈ [Message.sync], WellFormed m) ∧
      [[0x53, 0, 0], [0, 4]].flatten = encodeAll [.sync] ∧
      (∀ chunk ∈ [[0x53, 0, 0], [0, 4]], ReadSize chunk) ∧
      handleConnection [[0x53, 0, 0], [0, 4]] ≠ [.sync] := by
  refine ⟨by simp [wellFormed_sync], rfl, ?_, by decide⟩
  simp only [List.mem_cons, List.not_mem_nil, or_false, forall_eq_or_imp, forall_eq, ReadSize]
  decide

end PostgressRs.Protocol.StreamFraming
