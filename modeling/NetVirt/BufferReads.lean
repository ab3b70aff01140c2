import Mathlib.Algebra.Order.BigOperators.Group.List
import NetVirt.BufferCalls

/-!
# Data that is taken in and decoded

The loops of net_on_input: what was received is decrypted and added to buf_in, and the decoder
takes messages from it. Both are followed with what they store, and with what they leave in
buf_in as long as it stays in bounds.
-/

namespace NetVirt.BufferSizes

open Runs
open SendPath (SecurityLevel KryptStatus WriteResult)

/-! ## Data that is taken in -/

/-- buf_in has its data inside, and is not as large as a machine word allows. -/
structure Inside (sizes : Sizes) : Prop where
  some_room : 0 < sizes.bufInSize.toNat
  small : sizes.bufInSize.toNat < 2 ^ 63
  inside : sizes.bufInOffset.toNat + sizes.bufInDataSize.toNat ≤ sizes.bufInSize.toNat

/-- So much can be taken in without a number growing as large as a machine word. -/
structure Takable (sizes : Sizes) (reads : List Int) : Prop extends Inside sizes where
  few : (sizes.bufInDataSize.toNat : Int) + reads.sum < 2 ^ 61
  spare : Spare 0 sizes

/-- There is room in a connection's buf_in. -/
def Conn.room (conn : Conn) (reads : List Int) : Prop :=
  RoomAhead conn.sizes.bufInOffset.toNat conn.sizes.bufInSize.toNat
    conn.sizes.bufInDataSize.toNat reads

/-- A part of net_on_input that adds to the data of buf_in. -/
structure TakesIn (conn after : Conn) (reads : List Int) (lawful sound : Prop) : Prop where
  securityLevel : after.securityLevel = conn.securityLevel
  server : after.server = conn.server
  status : after.status = conn.status
  queueMsg : after.queueMsg = conn.queueMsg
  freed : after.freed = conn.freed
  bufInOffset : after.sizes.bufInOffset = conn.sizes.bufInOffset
  spare : ∀ count, Spare count conn.sizes → Spare count after.sizes
  stored : Stored conn after (Takable conn.sizes reads ∧ lawful) sound
  inside : Takable conn.sizes reads → lawful → sound → Inside after.sizes ∧
    (after.sizes.bufInDataSize.toNat : Int) = conn.sizes.bufInDataSize.toNat + reads.sum

section TakesIn
variable {conn middle after : Conn} {reads reads' : List Int} {lawful lawful' sound sound' : Prop}

theorem TakesIn.trans (first : TakesIn conn middle reads lawful sound)
    (second : TakesIn middle after reads' lawful' sound') (more : 0 ≤ reads'.sum) :
    TakesIn conn after (reads ++ reads') (lawful ∧ lawful') (sound ∧ sound') := by
  have early : ∀ {sizes : Sizes}, Takable sizes (reads ++ reads') → Takable sizes reads := by
    intro sizes takable
    have few := takable.few
    rw [List.sum_append] at few
    exact ⟨takable.toInside, by omega, takable.spare⟩
  have late : Takable conn.sizes (reads ++ reads') → lawful → sound →
      Takable middle.sizes reads' := by
    intro takable lawful sound
    obtain ⟨inside, data⟩ := first.inside (early takable) lawful sound
    have few := takable.few
    rw [List.sum_append] at few
    exact ⟨inside, by omega, first.spare 0 takable.spare⟩
  refine ⟨second.securityLevel.trans first.securityLevel, second.server.trans first.server,
    second.status.trans first.status, second.queueMsg.trans first.queueMsg,
    second.freed.trans first.freed,
    second.bufInOffset.trans first.bufInOffset,
    fun count spare => second.spare count (first.spare count spare), ?_, ?_⟩
  · have stored : Stored conn middle (Takable conn.sizes (reads ++ reads') ∧ lawful ∧ lawful')
        sound := first.stored.congr (fun both => ⟨early both.1, both.2.1⟩) fun _ => Iff.rfl
    exact stored.trans second.stored fun both sound => ⟨late both.1 both.2.1 sound, both.2.2⟩
  · intro takable lawful sound
    obtain ⟨_, data⟩ := first.inside (early takable) lawful.1 sound.1
    obtain ⟨inside, data'⟩ := second.inside (late takable lawful.1 sound.1) lawful.2 sound.2
    exact ⟨inside, by rw [data', data, List.sum_append]; omega⟩

theorem TakesIn.congr (takes : TakesIn conn after reads lawful sound) (weaker : lawful' → lawful)
    (same : Takable conn.sizes reads → lawful' → (sound ↔ sound')) :
    TakesIn conn after reads lawful' sound' :=
  { takes with
    stored := takes.stored.congr (fun both => ⟨both.1, weaker both.2⟩)
      fun both => same both.1 both.2
    inside := fun takable lawful sound =>
      takes.inside takable (weaker lawful) ((same takable lawful).mpr sound) }

/-- A call that leaves buf_in alone takes nothing in. -/
theorem Calls.takesIn (calls : Calls conn after 0 lawful sound)
    (status : after.status = conn.status) : TakesIn conn after [] lawful sound where
  securityLevel := calls.securityLevel
  server := calls.server
  status := status
  queueMsg := calls.queueMsg
  freed := calls.freed
  bufInOffset := calls.bufInOffset
  spare count spare := calls.spare count (by rwa [Nat.zero_add])
  stored := calls.stored.congr (fun both => ⟨both.1.spare, both.2⟩) fun _ => Iff.rfl
  inside takable _ _ := by
    obtain ⟨some_room, small, inside⟩ := takable.toInside
    refine ⟨⟨?_, ?_, ?_⟩, by rw [calls.bufInDataSize, List.sum_nil, Int.add_zero]⟩
    · rwa [calls.bufInSize]
    · rwa [calls.bufInSize]
    · rwa [calls.bufInOffset, calls.bufInDataSize, calls.bufInSize]

/-- What was read is serialized. -/
theorem TakesIn.serializeBufIn (conn : Conn) (nbyte : CInt) :
    TakesIn conn (conn.update (.serializeBufIn (word nbyte))) [nbyte.toInt]
      (-1 ≤ nbyte.toInt) (conn.room [nbyte.toInt]) := by
  have room : conn.room [nbyte.toInt] ↔
      0 ≤ (conn.sizes.bufInDataSize.toNat : Int) + nbyte.toInt ∧
        ((conn.sizes.bufInDataSize.toNat : Int) + nbyte.toInt ≤ conn.sizes.bufInSize.toNat →
          (conn.sizes.bufInOffset.toNat : Int) + conn.sizes.bufInDataSize.toNat + nbyte.toInt ≤
            conn.sizes.bufInSize.toNat) := by
    simp only [Conn.room, RoomAhead, and_true, ite_prop_iff_and, implies_true]
  have few : Takable conn.sizes [nbyte.toInt] →
      (conn.sizes.bufInDataSize.toNat : Int) + nbyte.toInt < 2 ^ 61 := by
    intro takable
    simpa using takable.few
  refine ⟨rfl, rfl, rfl, rfl, rfl, rfl, fun count spare => ⟨spare.inside, spare.small, spare.few⟩,
    ?_, ?_⟩
  · refine (Stored.update conn _).congr id fun both => ?_
    obtain ⟨takable, read⟩ := both
    rw [room]
    exact room_iff _ _ _ _ takable.inside takable.small takable.some_room read (few takable)
  · intro takable read sound
    rw [room] at sound
    obtain ⟨data, size⟩ := serialize_toNat conn.sizes.bufInSize conn.sizes.bufInOffset
      conn.sizes.bufInDataSize nbyte takable.inside takable.small takable.some_room read
      (few takable) sound.1
    have few := few takable
    have inside := takable.inside
    have small := takable.small
    have some_room := takable.some_room
    refine ⟨⟨?_, ?_, ?_⟩, ?_⟩
    · simp only [Conn.update, Sizes.apply]
      split at size <;> omega
    · simp only [Conn.update, Sizes.apply]
      split at size <;> omega
    · simp only [Conn.update, Sizes.apply]
      split at size <;> omega
    · simpa [Conn.update, Sizes.apply] using data

/-- The bytes that are left in the peer's buffer are not what is taken in. -/
theorem TakesIn.fed {len : CInt}
    (takes : TakesIn { conn with bufferDataLen := len } after reads lawful sound) :
    TakesIn conn after reads lawful sound :=
  ⟨takes.securityLevel, takes.server, takes.status, takes.queueMsg, takes.freed, takes.bufInOffset,
    takes.spare, takes.stored, takes.inside⟩

end TakesIn

/-! ## Rooms -/

section Rooms
variable {conn after : Conn} {nbyte : CInt} {total : Nat} {lawful sound : Prop}

theorem Calls.room (calls : Calls conn after total lawful sound) (reads : List Int) :
    after.room reads ↔ conn.room reads := by
  rw [Conn.room, Conn.room, calls.bufInOffset, calls.bufInSize, calls.bufInDataSize]

/-- There is room for several reads if there is for the first, and for the others behind it. -/
theorem serialized_room (reads : List Int) (takable : Takable conn.sizes [nbyte.toInt])
    (read : -1 ≤ nbyte.toInt) :
    conn.room (nbyte.toInt :: reads) ↔ conn.room [nbyte.toInt] ∧
      (conn.update (.serializeBufIn (word nbyte))).room reads := by
  have few : (conn.sizes.bufInDataSize.toNat : Int) + nbyte.toInt < 2 ^ 61 := by
    simpa using takable.few
  simp only [Conn.room, RoomAhead, and_true, ite_prop_iff_and, implies_true, and_assoc]
  refine and_congr_right fun positive => ?_
  obtain ⟨data, size⟩ := serialize_toNat conn.sizes.bufInSize conn.sizes.bufInOffset
    conn.sizes.bufInDataSize nbyte takable.inside takable.small takable.some_room read few positive
  simp only [Conn.update, Sizes.apply]
  rw [data, size]
  split <;> rename_i fits
  · simp [fits]
  · simp [fits]

end Rooms

/-! ## The decryption loop -/

theorem sslReads_sum (rounds : List Round) : 0 ≤ (sslReads rounds).sum := by
  refine List.sum_nonneg fun nbyte inside => ?_
  have positive := (List.mem_filter.mp inside).2
  simp only [decide_eq_true_eq] at positive
  omega

/-- What a round in which SSL_read finds something leaves. -/
def Round.after (round : Round) (conn : Conn) : Conn :=
  netDoKrypt round.sent
    ((((conn.update (.decryptStored round.decryption.sslRead)).update
      (.serializeBufIn (word round.decryption.sslRead))).update (.decryptStored 0#32)))

/-- A round in which SSL_read finds something. -/
theorem round_takesIn (round : Round) (conn : Conn) (found : 0 < round.decryption.sslRead.toInt) :
    TakesIn conn (round.after conn) [round.decryption.sslRead.toInt] round.decryption.Lawful
      (conn.room [round.decryption.sslRead.toInt]) := by
  have decrypted := (Calls.decryptStored conn round.decryption.sslRead).takesIn rfl
  have serialized := TakesIn.serializeBufIn
    (conn.update (.decryptStored round.decryption.sslRead)) round.decryption.sslRead
  have emptied := ((Calls.decryptStored _ 0#32).trans (netDoKrypt_calls round.sent
    (((conn.update (.decryptStored round.decryption.sslRead)).update
      (.serializeBufIn (word round.decryption.sslRead))).update (.decryptStored 0#32)))).takesIn
    (netDoKrypt_status round.sent)
  have all := (decrypted.trans serialized (by simpa using Int.le_of_lt found)).trans emptied
    (by simp)
  refine all.congr (fun lawful => ⟨⟨lawful.1, by omega⟩, by decide, trivial⟩) fun _ _ => ?_
  have room := (Calls.decryptStored conn round.decryption.sslRead).room
    [round.decryption.sslRead.toInt]
  rw [room]
  exact ⟨fun sound => sound.1.2, fun sound => ⟨⟨(Int.le_of_lt found), sound⟩, by decide, trivial⟩⟩

/-- There is room for what is read from this round on. -/
theorem round_room (round : Round) (conn : Conn) (found : 0 < round.decryption.sslRead.toInt)
    (reads : List Int) (takable : Takable conn.sizes [round.decryption.sslRead.toInt]) :
    conn.room (round.decryption.sslRead.toInt :: reads) ↔
      conn.room [round.decryption.sslRead.toInt] ∧ (round.after conn).room reads := by
  have emptied := (Calls.decryptStored ((conn.update
    (.decryptStored round.decryption.sslRead)).update
    (.serializeBufIn (word round.decryption.sslRead))) 0#32).trans (netDoKrypt_calls round.sent _)
  have decrypted := Calls.decryptStored conn round.decryption.sslRead
  have ready : Takable (conn.update (.decryptStored round.decryption.sslRead)).sizes
      [round.decryption.sslRead.toInt] :=
    ⟨⟨takable.some_room, takable.small, takable.inside⟩, takable.few,
      decrypted.spare 0 takable.spare⟩
  rw [← decrypted.room, ← decrypted.room, serialized_room reads ready (by omega)]
  exact and_congr_right fun _ => (emptied.room reads).symm

/-- A connection once BIO_write took some of the received bytes. -/
def Round.fed (round : Round) (conn : Conn) : Conn :=
  { conn with bufferDataLen := round.left conn.bufferDataLen }

theorem decryptLoop_cons (round : Round) (rest : List Round) (conn : Conn) :
    decryptLoop (round :: rest) conn =
      let (ret, conn) := kryptDecryptBuf round.decryption (round.fed conn)
      let conn := if ret = 0 then
        (conn.update (.serializeBufIn conn.sizes.bufDecryptDataSize)).update (.decryptStored 0#32)
        else conn
      let conn := netDoKrypt round.sent conn
      if ret = 0 ∧ (round.peek = 1 ∨ conn.bufferDataLen.toInt > 0) then decryptLoop rest conn
      else some conn := rfl

theorem decryptLoop_found (round : Round) (rest : List Round) (conn : Conn)
    (found : 0 < round.decryption.sslRead.toInt) :
    decryptLoop (round :: rest) conn =
      if round.peek = 1 ∨ (round.left conn.bufferDataLen).toInt > 0 then
        decryptLoop rest (round.after (round.fed conn))
      else some (round.after (round.fed conn)) := by
  have decrypted : kryptDecryptBuf round.decryption (round.fed conn) =
      (0, (round.fed conn).update (.decryptStored round.decryption.sslRead)) :=
    if_neg (Int.not_le.mpr found)
  have kept : (round.after (round.fed conn)).bufferDataLen = round.left conn.bufferDataLen :=
    (netDoKrypt_calls round.sent _).bufferDataLen
  rw [decryptLoop_cons, decrypted, ← kept]
  simp only [if_true, true_and]
  rfl

theorem decryptLoop_ends (round : Round) (rest : List Round) (conn : Conn)
    (nothing : ¬ 0 < round.decryption.sslRead.toInt) :
    decryptLoop (round :: rest) conn =
      some (netDoKrypt round.sent (kryptDecryptBuf round.decryption (round.fed conn)).2) := by
  have failed : (kryptDecryptBuf round.decryption (round.fed conn)).1 = -1 := by
    rw [kryptDecryptBuf, if_pos (Int.not_lt.mp nothing)]
  rw [decryptLoop_cons]
  simp only [failed]
  rfl

theorem decryptLoop_takesIn (rounds : List Round) {conn after : Conn}
    (done : decryptLoop rounds conn = some after) :
    TakesIn conn after (sslReads (roundsTaken conn.bufferDataLen rounds))
      (∀ round ∈ rounds, round.decryption.Lawful)
      (conn.room (sslReads (roundsTaken conn.bufferDataLen rounds)) ∧
        ∀ round ∈ roundsTaken conn.bufferDataLen rounds, round.decryption.Sound) := by
  induction rounds generalizing conn with
  | nil => cases done
  | cons round rest inductionHypothesis =>
    rw [roundsTaken]
    by_cases found : 0 < round.decryption.sslRead.toInt
    · have reads : ∀ more, sslReads (round :: more) =
          round.decryption.sslRead.toInt :: sslReads more := by
        intro more
        simp [sslReads, found]
      have harmless : round.decryption.Sound := fun few => absurd few (Int.not_le.mpr found)
      have one := (round_takesIn round (round.fed conn) found).fed
      have kept : (round.after (round.fed conn)).bufferDataLen = round.left conn.bufferDataLen :=
        (netDoKrypt_calls round.sent _).bufferDataLen
      rw [decryptLoop_found round rest conn found] at done
      by_cases onward : round.peek = 1 ∨ (round.left conn.bufferDataLen).toInt > 0
      · rw [if_pos onward] at done
        rw [if_pos ⟨found, onward⟩, reads]
        have more := inductionHypothesis done
        rw [kept] at more
        refine (one.trans more (sslReads_sum _)).congr
          (fun lawful => List.forall_mem_cons.mp lawful) fun takable lawful => ?_
        rw [List.forall_mem_cons, and_iff_right harmless, ← and_assoc]
        refine and_congr_left fun _ => ?_
        have first : Takable conn.sizes [round.decryption.sslRead.toInt] := by
          have few := takable.few
          have rest := sslReads_sum (roundsTaken (round.left conn.bufferDataLen) rest)
          simp only [List.singleton_append, List.sum_cons] at few
          exact ⟨takable.toInside, by simp only [List.sum_singleton]; omega, takable.spare⟩
        exact (round_room round (round.fed conn) found _ first).symm
      · rw [if_neg onward] at done
        rw [if_neg fun both => onward both.2, reads]
        obtain rfl := Option.some.inj done
        refine one.congr (fun lawful => lawful round List.mem_cons_self) fun _ _ => ?_
        rw [List.forall_mem_singleton, and_iff_left harmless]
        rfl
    · rw [decryptLoop_ends round rest conn found] at done
      obtain rfl := Option.some.inj done
      have nothing : sslReads [round] = [] := by simp [sslReads, found]
      rw [if_neg fun both => found both.1, nothing]
      have ended := (((kryptDecryptBuf_calls round.decryption (round.fed conn)).trans
        (netDoKrypt_calls round.sent _)).takesIn ((netDoKrypt_status round.sent).trans
          (kryptDecryptBuf_status round.decryption))).fed
      refine ended.congr (fun lawful => ⟨lawful round List.mem_cons_self, trivial⟩) fun _ _ => ?_
      rw [List.forall_mem_singleton, and_iff_left trivial]
      exact (and_iff_right trivial).symm

/-- The rounds of the decryption loop, in a connection that takes data in. -/
def roundsAt (conn : Conn) (arrival : Arrival) : List Round :=
  if conn.securityLevel ≠ .unsecure ∧ conn.status = .secure then
    roundsTaken conn.bufferDataLen arrival.rounds
  else []

def readsAt (conn : Conn) (arrival : Arrival) : List Int :=
  if conn.securityLevel = .unsecure then [conn.bufferDataLen.toInt]
  else sslReads (roundsAt conn arrival)

theorem takeIn_takesIn (arrival : Arrival) {conn after : Conn}
    (done : takeIn arrival conn = some after) :
    TakesIn conn after (readsAt conn arrival)
      (-1 ≤ conn.bufferDataLen.toInt ∧ ∀ round ∈ arrival.rounds, round.decryption.Lawful)
      (conn.room (readsAt conn arrival) ∧
        ∀ round ∈ roundsAt conn arrival, round.decryption.Sound) := by
  unfold takeIn at done
  unfold readsAt roundsAt
  by_cases unsecure : conn.securityLevel = .unsecure
  · rw [if_pos unsecure, Option.some.injEq] at done
    subst done
    rw [if_pos unsecure, if_neg fun both => both.1 unsecure]
    refine (TakesIn.serializeBufIn conn conn.bufferDataLen).congr And.left fun _ _ => ?_
    exact (and_iff_left fun _ inside => by cases inside).symm
  · rw [if_neg unsecure] at done
    rw [if_neg unsecure]
    by_cases secure : conn.status = .secure
    · rw [if_pos secure] at done
      rw [if_pos ⟨unsecure, secure⟩]
      exact (decryptLoop_takesIn arrival.rounds done).congr And.right fun _ _ => Iff.rfl
    · rw [if_neg secure, Option.some.injEq] at done
      subst done
      rw [if_neg fun both => secure both.2]
      refine ((Calls.refl conn).takesIn rfl).congr (fun _ => trivial) fun _ _ => ?_
      exact iff_of_true trivial ⟨trivial, fun _ inside => by cases inside⟩

/-! ## Data that is decoded -/

/-- The bytes that the calls of ber_decode consume. -/
def consumed (data : Nat) (decodes : List Decode) : Nat :=
  ((decodeCalls data decodes).map Decode.bytes).sum

section Decoding
variable {conn : Conn}

@[simp] theorem decodeCalls_zero (decodes : List Decode) : decodeCalls 0 decodes = [] := by
  cases decodes <;> rfl

theorem decodeCalls_ok (data : Nat) (some_data : data ≠ 0) (bytes : Word) (rest : List Decode) :
    decodeCalls data (.ok bytes :: rest) =
      .ok bytes :: decodeCalls (data - bytes.toNat) rest := by
  cases data with
  | zero => exact absurd rfl some_data
  | succ data => rfl

theorem decodeCalls_wmore (data : Nat) (some_data : data ≠ 0) (bytes : Word)
    (rest : List Decode) : decodeCalls data (.wmore bytes :: rest) = [.wmore bytes] := by
  cases data with
  | zero => exact absurd rfl some_data
  | succ data => rfl

theorem decodeCalls_fail (data : Nat) (some_data : data ≠ 0) (rest : List Decode) :
    decodeCalls data (.fail :: rest) = [.fail] := by
  cases data with
  | zero => exact absurd rfl some_data
  | succ data => rfl

/-- The decoder consumes some bytes. -/
theorem consumed_stored (conn : Conn) (bytes : Word) :
    Stored conn (conn.update (.consumed bytes)) (Inside conn.sizes ∧ bytes.toNat < 2 ^ 63)
      (bytes.toNat ≤ conn.sizes.bufInDataSize.toNat) := by
  refine (Stored.update conn _).congr id fun both => ?_
  obtain ⟨⟨_, small, inside⟩, few⟩ := both
  exact or_iff_left (by omega)

theorem consumed_inside (bytes : Word) (inside : Inside conn.sizes)
    (few : bytes.toNat ≤ conn.sizes.bufInDataSize.toNat) :
    Inside (conn.update (.consumed bytes)).sizes ∧
      (conn.update (.consumed bytes)).sizes.bufInDataSize.toNat =
        conn.sizes.bufInDataSize.toNat - bytes.toNat := by
  obtain ⟨some_room, small, inside⟩ := inside
  have left : (conn.sizes.bufInDataSize - bytes).toNat =
      conn.sizes.bufInDataSize.toNat - bytes.toNat := BitVec.toNat_sub_of_le few
  refine ⟨⟨some_room, small, ?_⟩, left⟩
  simp only [Conn.update, Sizes.apply]
  rw [left]
  split
  · simp only [BitVec.toNat_ofNat]
    omega
  · rw [BitVec.toNat_add]
    omega

/-- A part of net_on_input that decodes what is in buf_in. -/
structure Decodes (conn after : Conn) (ret : Int) (decodes : List Decode) : Prop where
  securityLevel : after.securityLevel = conn.securityLevel
  server : after.server = conn.server
  status : after.status = conn.status
  freed : after.freed = conn.freed
  queued : conn.queueMsg ≤ after.queueMsg
  spare : ∀ count, Spare count conn.sizes → Spare count after.sizes
  stored : Stored conn after
    (Inside conn.sizes ∧ ∀ decode ∈ decodes, decode.bytes < 2 ^ 63)
    (consumed conn.sizes.bufInDataSize.toNat decodes ≤ conn.sizes.bufInDataSize.toNat)
  inside : Inside conn.sizes →
    consumed conn.sizes.bufInDataSize.toNat decodes ≤ conn.sizes.bufInDataSize.toNat →
    Inside after.sizes ∧
      (ret = -1 ↔ .fail ∈ decodeCalls conn.sizes.bufInDataSize.toNat decodes) ∧
      (0 < after.queueMsg ↔ 0 < conn.queueMsg ∨
        ∃ bytes, .ok bytes ∈ decodeCalls conn.sizes.bufInDataSize.toNat decodes)

/-- A step of net_decode_msg does not touch buf_enc. -/
theorem Spare.decoded {count : Nat} {sizes : Sizes} (spare : Spare count sizes) (update : Update)
    (decodes : update = .decodeFailed ∨ ∃ bytes, update = .consumed bytes) :
    Spare count (sizes.apply update) := by
  rcases decodes with rfl | ⟨bytes, rfl⟩
  · exact ⟨spare.inside, spare.small, spare.few⟩
  · exact ⟨spare.inside, spare.small, spare.few⟩

theorem decodes_fail (rest : List Decode) (some_data : conn.sizes.bufInDataSize.toNat ≠ 0) :
    Decodes conn (conn.update .decodeFailed) (-1) (.fail :: rest) := by
  have calls := decodeCalls_fail _ some_data rest
  refine ⟨rfl, rfl, rfl, rfl, Nat.le_refl _, fun count spare => spare.decoded _ (Or.inl rfl), ?_,
    fun inside _ => ?_⟩
  · refine (Stored.update conn _).congr id fun _ => iff_of_true trivial ?_
    rw [consumed, calls]
    exact Nat.zero_le _
  · rw [calls]
    refine ⟨⟨inside.some_room, inside.small, ?_⟩, by simp, by simp [Conn.update]⟩
    simp [Conn.update, Sizes.apply]

theorem decodes_wmore (bytes : Word) (rest : List Decode)
    (some_data : conn.sizes.bufInDataSize.toNat ≠ 0) :
    Decodes conn (conn.update (.consumed bytes)) 0 (.wmore bytes :: rest) := by
  have calls := decodeCalls_wmore _ some_data bytes rest
  have total : consumed conn.sizes.bufInDataSize.toNat (.wmore bytes :: rest) = bytes.toNat := by
    simp [consumed, calls, Decode.bytes]
  refine ⟨rfl, rfl, rfl, rfl, Nat.le_refl _,
    fun count spare => spare.decoded _ (Or.inr ⟨bytes, rfl⟩), ?_, fun inside few => ?_⟩
  · rw [total]
    exact (consumed_stored conn bytes).congr
      (fun both => ⟨both.1, both.2 _ List.mem_cons_self⟩) fun _ => Iff.rfl
  · rw [total] at few
    rw [calls]
    exact ⟨(consumed_inside bytes inside few).1, by simp, by simp [Conn.update]⟩

/-- A connection once a message of so many bytes is in its queue. -/
def Conn.queued (conn : Conn) (bytes : Word) : Conn :=
  { conn with queueMsg := conn.queueMsg + 1 }.update (.consumed bytes)

theorem decodeLoop_ok (bytes : Word) (rest : List Decode) (conn : Conn) :
    decodeLoop (.ok bytes :: rest) conn =
      if (conn.queued bytes).sizes.bufInDataSize = 0#64 then some (0, conn.queued bytes)
      else decodeLoop rest (conn.queued bytes) := rfl

theorem queued_stored (bytes : Word) (decodes : List Decode) (first : .ok bytes ∈ decodes) :
    Stored conn (conn.queued bytes)
      (Inside conn.sizes ∧ ∀ decode ∈ decodes, decode.bytes < 2 ^ 63)
      (bytes.toNat ≤ conn.sizes.bufInDataSize.toNat) := by
  have stored := consumed_stored { conn with queueMsg := conn.queueMsg + 1 } bytes
  have same : Stored conn (conn.queued bytes) (Inside conn.sizes ∧ bytes.toNat < 2 ^ 63)
      (bytes.toNat ≤ conn.sizes.bufInDataSize.toNat) := stored
  exact same.congr (fun both => ⟨both.1, both.2 _ first⟩) fun _ => Iff.rfl

theorem queued_inside (bytes : Word) (inside : Inside conn.sizes)
    (few : bytes.toNat ≤ conn.sizes.bufInDataSize.toNat) :
    Inside (conn.queued bytes).sizes ∧ (conn.queued bytes).sizes.bufInDataSize.toNat =
      conn.sizes.bufInDataSize.toNat - bytes.toNat := by
  have within : Inside { conn with queueMsg := conn.queueMsg + 1 }.sizes := inside
  exact consumed_inside bytes within few

/-- The message was the last one. -/
theorem decodes_last (bytes : Word) (rest : List Decode)
    (some_data : conn.sizes.bufInDataSize.toNat ≠ 0)
    (finished : (conn.queued bytes).sizes.bufInDataSize = 0#64) :
    Decodes conn (conn.queued bytes) 0 (.ok bytes :: rest) := by
  have calls := decodeCalls_ok _ some_data bytes rest
  have all : bytes.toNat = conn.sizes.bufInDataSize.toNat := by
    simp only [Conn.queued, Conn.update, Sizes.apply] at finished
    bv_omega
  rw [all, Nat.sub_self, decodeCalls_zero] at calls
  have total : consumed conn.sizes.bufInDataSize.toNat (.ok bytes :: rest) =
      conn.sizes.bufInDataSize.toNat := by
    simp [consumed, calls, Decode.bytes, all]
  refine ⟨rfl, rfl, rfl, rfl, Nat.le_succ _,
    fun count spare => spare.decoded _ (Or.inr ⟨bytes, rfl⟩), ?_, fun inside few => ?_⟩
  · rw [total]
    exact (queued_stored bytes _ List.mem_cons_self).congr id
      fun _ => iff_of_true all.le (Nat.le_refl _)
  · rw [calls]
    exact ⟨(queued_inside bytes inside all.le).1, by simp, by simp [Conn.queued, Conn.update]⟩

/-- More data is behind the message. -/
theorem decodes_more (bytes : Word) (rest : List Decode) {after : Conn} {ret : Int}
    (some_data : conn.sizes.bufInDataSize.toNat ≠ 0)
    (later : Decodes (conn.queued bytes) after ret rest) :
    Decodes conn after ret (.ok bytes :: rest) := by
  have calls := decodeCalls_ok _ some_data bytes rest
  have total : consumed conn.sizes.bufInDataSize.toNat (.ok bytes :: rest) =
      bytes.toNat + consumed (conn.sizes.bufInDataSize.toNat - bytes.toNat) rest := by
    simp [consumed, calls, Decode.bytes]
  refine ⟨later.securityLevel, later.server, later.status, later.freed,
    (Nat.le_succ _).trans later.queued,
    fun count spare => later.spare count (spare.decoded _ (Or.inr ⟨bytes, rfl⟩)), ?_,
    fun inside few => ?_⟩
  · refine ((queued_stored bytes _ List.mem_cons_self).trans later.stored fun both few =>
      ⟨(queued_inside bytes both.1 few).1,
        fun other inside => both.2 other (List.mem_cons_of_mem _ inside)⟩).congr id fun both => ?_
    rw [total]
    constructor
    · rintro ⟨few, rest⟩
      rw [(queued_inside bytes both.1 few).2] at rest
      omega
    · intro few
      have within : bytes.toNat ≤ conn.sizes.bufInDataSize.toNat := by omega
      refine ⟨within, ?_⟩
      rw [(queued_inside bytes both.1 within).2]
      omega
  · rw [total] at few
    have within : bytes.toNat ≤ conn.sizes.bufInDataSize.toNat := by omega
    obtain ⟨held, data⟩ := queued_inside bytes inside within
    obtain ⟨held, failed, queue⟩ := later.inside held (by rw [data]; omega)
    rw [data] at failed queue
    rw [calls]
    refine ⟨held, failed.trans (by simp), ?_⟩
    exact iff_of_true (queue.mpr (Or.inl (Nat.succ_pos _))) (Or.inr ⟨bytes, List.mem_cons_self⟩)

theorem decodeLoop_decodes (decodes : List Decode) {after : Conn} {ret : Int}
    (some_data : conn.sizes.bufInDataSize.toNat ≠ 0)
    (done : decodeLoop decodes conn = some (ret, after)) : Decodes conn after ret decodes := by
  induction decodes generalizing conn with
  | nil => cases done
  | cons decode rest inductionHypothesis =>
    cases decode with
    | fail =>
      obtain ⟨rfl, rfl⟩ := Prod.mk.inj (Option.some.inj done)
      exact decodes_fail rest some_data
    | wmore bytes =>
      obtain ⟨rfl, rfl⟩ := Prod.mk.inj (Option.some.inj done)
      exact decodes_wmore bytes rest some_data
    | ok bytes =>
      rw [decodeLoop_ok] at done
      by_cases finished : (conn.queued bytes).sizes.bufInDataSize = 0#64
      · rw [if_pos finished, Option.some.injEq] at done
        obtain ⟨rfl, rfl⟩ := Prod.mk.inj done
        exact decodes_last bytes rest some_data finished
      · rw [if_neg finished] at done
        have some_left : (conn.queued bytes).sizes.bufInDataSize.toNat ≠ 0 :=
          fun none => finished (BitVec.eq_of_toNat_eq none)
        exact decodes_more bytes rest some_data (inductionHypothesis some_left done)

theorem netDecodeMsg_decodes (decodes : List Decode) {after : Conn} {ret : Int}
    (done : netDecodeMsg decodes conn = some (ret, after)) : Decodes conn after ret decodes := by
  unfold netDecodeMsg at done
  by_cases none : conn.sizes.bufInDataSize = 0#64
  · rw [if_pos none, Option.some.injEq] at done
    obtain ⟨rfl, rfl⟩ := Prod.mk.inj done
    have calls : decodeCalls conn.sizes.bufInDataSize.toNat decodes = [] := by
      rw [none, BitVec.toNat_ofNat, Nat.zero_mod, decodeCalls_zero]
    refine ⟨rfl, rfl, rfl, rfl, Nat.le_refl _, fun _ => id,
      (Stored.none rfl rfl).congr id fun _ => ?_, fun inside _ => ?_⟩
    · exact iff_of_true trivial (by simp [consumed, calls])
    · rw [calls]
      exact ⟨inside, by simp, by simp⟩
  · rw [if_neg none] at done
    exact decodeLoop_decodes decodes (fun zero => none (BitVec.eq_of_toNat_eq zero)) done

end Decoding

end NetVirt.BufferSizes
