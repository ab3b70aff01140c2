import NetVirt.SendPath

/-!
# Sends that are refused

A send that is refused because its connection is not yet secure leaves its encoding in
buf_enc, and the next one that is accepted hands it over with its own. In runs without such
a refusal, and in no others, a refused send leaves no trace and every accepted one hands over
the encoding of its own message.
-/

namespace NetVirt.SendPath

open Runs

variable {Message Object Peer : Type}

/-! ## What an accepted send hands over -/

/-- The calls of SSL_write that were made between two states were all given this plaintext. -/
def WritesOnly (before after : Krypt Object) (plaintext : List UInt8) : Prop :=
  ∃ calls, after.writes = before.writes ++ calls ∧ ∀ call ∈ calls, call.1 = plaintext

theorem WritesOnly.refl (kconn : Krypt Object) (plaintext : List UInt8) :
    WritesOnly kconn kconn plaintext :=
  ⟨[], by simp, by simp⟩

theorem WritesOnly.trans {before middle after : Krypt Object} {plaintext : List UInt8}
    (early : WritesOnly before middle plaintext) (late : WritesOnly middle after plaintext) :
    WritesOnly before after plaintext := by
  obtain ⟨first, one, given⟩ := early
  obtain ⟨second, two, again⟩ := late
  refine ⟨first ++ second, by rw [two, one, List.append_assoc], fun call inside => ?_⟩
  rcases List.mem_append.mp inside with here | there
  · exact given call here
  · exact again call there

/-- A round of the loop gives SSL_write what buf_enc holds. -/
theorem encryptRound_writes (ssl : Ssl Object) (netc : Netc Object Peer) (plaintext : List UInt8)
    (held : netc.bufEnc = plaintext ∨ netc.bufEnc = []) :
    WritesOnly netc.kconn (encryptRound ssl netc).2.kconn plaintext := by
  have writes : (encryptRound ssl netc).2.kconn.writes =
      (kryptEncryptBuf ssl netc.kconn netc.bufEnc).2.writes := rfl
  rw [kryptEncryptBuf_writes] at writes
  by_cases empty : netc.bufEnc = []
  · exact ⟨[], by rw [writes, if_pos empty, List.append_nil], by simp⟩
  · refine ⟨_, by rw [writes, if_neg empty], ?_⟩
    simpa using held.resolve_right empty

/-- The loop gives SSL_write what buf_enc holds, and nothing else. -/
theorem encryptLoop_writes (ssl : Ssl Object) (fuel : Nat) (netc after : Netc Object Peer)
    (plaintext : List UInt8) (held : netc.bufEnc = plaintext ∨ netc.bufEnc = [])
    (done : encryptLoop ssl fuel netc = some after) :
    WritesOnly netc.kconn after.kconn plaintext := by
  induction fuel generalizing netc with
  | zero => cases done
  | succ fuel inductionHypothesis =>
    have round := encryptRound_writes ssl netc plaintext held
    by_cases again : (encryptRound ssl netc).1 < 0
    · rw [encryptLoop_succ, if_pos again] at done
      refine round.trans (inductionHypothesis _ ?_ done)
      -- After -2 there is nothing left to write.
      by_cases left : (encryptRound ssl netc).1 = -2
      · exact Or.inr (if_pos left)
      · exact held.imp (if_neg left).trans (if_neg left).trans
    · rw [encryptLoop_succ, if_neg again] at done
      obtain rfl := Option.some.inj done
      exact round

/-- A loop that has something to write calls SSL_write in its first round. -/
theorem encryptLoop_first (ssl : Ssl Object) (fuel : Nat) (netc after : Netc Object Peer)
    (nonempty : netc.bufEnc ≠ []) (done : encryptLoop ssl fuel netc = some after) :
    after.kconn.writes ≠ netc.kconn.writes := by
  cases fuel with
  | zero => cases done
  | succ fuel =>
    have round : (encryptRound ssl netc).2.kconn.writes =
        netc.kconn.writes ++ [(netc.bufEnc, (ssl.sslWrite netc.kconn.ssl netc.bufEnc).1)] :=
      (kryptEncryptBuf_writes ssl netc.kconn netc.bufEnc).trans (if_neg nonempty)
    have grown : (encryptRound ssl netc).2.kconn.writes <+: after.kconn.writes := by
      by_cases again : (encryptRound ssl netc).1 < 0
      · rw [encryptLoop_succ, if_pos again] at done
        obtain ⟨calls, later, _⟩ := encryptLoop_writes ssl fuel _ after _ (Or.inl rfl) done
        exact ⟨calls, later.symm⟩
      · rw [encryptLoop_succ, if_neg again] at done
        obtain rfl := Option.some.inj done
        exact List.prefix_rfl
    intro same
    have longer := grown.length_le
    rw [round, same, List.length_append, List.length_singleton] at longer
    omega

/-- What an accepted send gives to queue_out, or to SSL_write, is this plaintext. -/
def Hands (before after : Netc Object Peer) (plaintext : List UInt8) : Prop :=
  if before.securityLevel = .unsecure then after.queued = before.queued ++ [plaintext]
  else WritesOnly before.kconn after.kconn plaintext ∧ after.kconn.writes ≠ before.kconn.writes

/-- What was encoded is what is handed over. -/
theorem handOver_hands (ssl : Ssl Object) (fuel : Nat) (ready handed : Netc Object Peer)
    (nonempty : ready.bufEnc ≠ []) (done : handOver ssl fuel ready = some handed) :
    Hands ready handed ready.bufEnc := by
  unfold handOver at done
  unfold Hands
  split at done
  · next plain =>
    obtain rfl := Option.some.inj done
    rw [if_pos plain]
    rfl
  · next secured =>
    rw [if_neg secured]
    exact ⟨encryptLoop_writes ssl fuel ready handed _ (Or.inl rfl) done,
      encryptLoop_first ssl fuel ready handed nonempty done⟩

/-! ## Runs -/

/-- What can happen to the send side: something changes the security layer, or a message is
sent, whose loop may take the given number of rounds. -/
inductive Event (Message Object : Type) where
  | krypt (object : Object) (status : KryptStatus) (bufEncrypt : List UInt8)
  | send (msg : Message) (rounds : Nat)

variable (encoder : DerEncoder Message) (ssl : Ssl Object) (transport : Transport Peer)

def step (netc : Netc Object Peer) : Event Message Object → Option (Netc Object Peer)
  | .krypt object status bufEncrypt => some { netc with
      kconn := { netc.kconn with
        ssl := object
        status := status
        bufEncrypt := bufEncrypt } }
  | .send msg rounds => (netSendMsg encoder ssl transport rounds netc msg).map Prod.snd

/-- A refused send leaves the buffers as it found them, and an accepted one hands over the
encoding of its own message. -/
def Traceless (netc : Netc Object Peer) : Event Message Object → Prop
  | .krypt _ _ _ => True
  | .send msg rounds =>
    (∀ refused, prepare encoder netc msg = .error refused →
      refused.bufEnc = netc.bufEnc ∧ refused.queueOut = netc.queueOut) ∧
    ∀ ready code after, prepare encoder netc msg = .ok ready →
      netSendMsg encoder ssl transport rounds netc msg = some (code, after) →
      Hands netc after (encoder.der msg)

/-- No message that can be encoded is sent before the connection is secure. -/
def InTime (netc : Netc Object Peer) : Event Message Object → Prop
  | .krypt _ _ _ => True
  | .send msg _ => netc.securityLevel = .unsecure ∨ netc.kconn.status = .secure ∨
      encoder.encoded msg = false

instance (netc : Netc Object Peer) (event : Event Message Object) :
    Decidable (InTime encoder netc event) :=
  match event with
  | .krypt _ _ _ => isTrue trivial
  | .send msg _ => inferInstanceAs (Decidable (netc.securityLevel = .unsecure ∨
      netc.kconn.status = .secure ∨ encoder.encoded msg = false))

/-- A send that is not refused hands over what buf_enc held and then its message. -/
theorem netSendMsg_hands (netc ready after : Netc Object Peer) (msg : Message) (fuel : Nat)
    (code : Int) (accepted : prepare encoder netc msg = .ok ready)
    (sent : netSendMsg encoder ssl transport fuel netc msg = some (code, after)) :
    Hands netc after (netc.bufEnc ++ encoder.der msg) ∧ after.bufEnc = [] := by
  obtain ⟨encoded, rfl⟩ := prepare_ok encoder netc ready msg accepted
  rw [netSendMsg, accepted] at sent
  obtain ⟨handed, done, flushed⟩ := Option.bind_eq_some_iff.mp sent
  have nonempty : netc.bufEnc ++ encoder.der msg ≠ [] := by
    simp [DerEncoder.der, encoder.tagged msg encoded]
  have hands := handOver_hands ssl fuel _ handed nonempty done
  have same := congrArg Prod.snd (Option.some.inj flushed)
  subst same
  exact ⟨hands, rfl⟩

/-- With nothing in buf_enc, a send leaves no trace exactly when it is in time. -/
theorem traceless_iff (netc : Netc Object Peer) (event : Event Message Object)
    (empty : netc.bufEnc = []) :
    Traceless encoder ssl transport netc event ↔ InTime encoder netc event := by
  cases event with
  | krypt object status bufEncrypt => exact Iff.rfl
  | send msg rounds =>
    have handed : ∀ ready code after, prepare encoder netc msg = .ok ready →
        netSendMsg encoder ssl transport rounds netc msg = some (code, after) →
        Hands netc after (encoder.der msg) := by
      intro ready code after accepted sent
      have hands := (netSendMsg_hands encoder ssl transport netc ready after msg rounds code
        accepted sent).1
      rwa [empty, List.nil_append] at hands
    simp only [Traceless, InTime]
    rw [and_iff_left handed, prepare_eq, empty]
    by_cases fails : encoder.encoded msg = false
    · simp [fails]
    · by_cases early : netc.securityLevel ≠ .unsecure ∧ netc.kconn.status ≠ .secure
      · have kept := encoder.tagged msg (by simpa using fails)
        simpa [fails, early, DerEncoder.der] using kept
      · rw [if_neg fails, if_neg early]
        refine iff_of_true (fun refused same => by cases same) ?_
        rw [not_and_or, not_not, not_not] at early
        rcases early with plain | secure
        · exact Or.inl plain
        · exact Or.inr (Or.inl secure)

/-- A step that is in time leaves nothing in buf_enc. -/
theorem emptied (netc : Netc Object Peer) (event : Event Message Object) (next : Netc Object Peer)
    (empty : netc.bufEnc = []) (inTime : InTime encoder netc event)
    (taken : step encoder ssl transport netc event = some next) : next.bufEnc = [] := by
  cases event with
  | krypt object status bufEncrypt =>
    obtain rfl := Option.some.inj taken
    exact empty
  | send msg rounds =>
    obtain ⟨⟨code, after⟩, sent, rfl⟩ := Option.map_eq_some_iff.mp taken
    cases accepted : prepare encoder netc msg with
    | ok ready =>
      exact (netSendMsg_hands encoder ssl transport netc ready after msg rounds code accepted
        sent).2
    | error refused =>
      rw [netSendMsg, accepted] at sent
      obtain ⟨_, rfl⟩ := Prod.mk.inj (Option.some.inj sent)
      have traceless := (traceless_iff encoder ssl transport netc (.send msg rounds) empty).mpr
        inTime
      rw [(traceless.1 refused accepted).1, empty]

/-- In a run from a new connection, every refused send leaves the buffers as it found them
and every accepted one hands over exactly its own message's encoding, exactly when no
message that can be encoded is sent before the connection is secure.

Proof: while buf_enc is empty, a send is traceless exactly when it comes in time, and then it
leaves buf_enc empty again. -/
theorem refusals_traceless_iff (securityLevel : SecurityLevel) (object : Object) (peer : Peer)
    (events : List (Event Message Object)) :
    Meets (step encoder ssl transport) (Traceless encoder ssl transport)
        (netConnectionNew securityLevel object peer) events ↔
      Meets (step encoder ssl transport) (InTime encoder)
        (netConnectionNew securityLevel object peer) events :=
  meets_iff_under (step encoder ssl transport) (fun netc => netc.bufEnc = [])
    (Traceless encoder ssl transport) (InTime encoder)
    (fun netc event empty => traceless_iff encoder ssl transport netc event empty)
    (fun netc event next empty inTime taken =>
      emptied encoder ssl transport netc event next empty inTime taken)
    (netConnectionNew securityLevel object peer) events rfl

/-- A secured connection on which nothing has happened. -/
def freshNetc : Netc SampleObject Unit := netConnectionNew .secureAdh .empty ()

/-- A message is refused during the handshake. -/
def earlySend : List (Event UInt8 SampleObject) :=
  [.krypt .empty .handshake [], .send 1 3]

/-- Another one is sent once the connection is secure. -/
def lateSend : List (Event UInt8 SampleObject) :=
  earlySend ++ [.krypt .empty .secure [], .send 2 3]

/-- The plaintext of the second message begins with the first. -/
theorem early_message_sent_later : ∃ early late,
    run (step sampleEncoder sampleSsl (wholeTransport Unit)) freshNetc earlySend = some early ∧
    early.bufEnc = sampleEncoder.der 1 ∧
    run (step sampleEncoder sampleSsl (wholeTransport Unit)) freshNetc lateSend = some late ∧
    late.kconn.writes.map Prod.fst = [sampleEncoder.der 1 ++ sampleEncoder.der 2] ∧
    ¬ Meets (step sampleEncoder sampleSsl (wholeTransport Unit))
      (Traceless sampleEncoder sampleSsl (wholeTransport Unit)) freshNetc lateSend := by
  refine ⟨_, _, rfl, by decide, rfl, by decide, ?_⟩
  rintro ⟨_, later⟩
  have traceless := (later _ rfl).1.1 _ rfl
  revert traceless
  decide

end NetVirt.SendPath
