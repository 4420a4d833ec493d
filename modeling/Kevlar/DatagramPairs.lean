import Kevlar.RingTransfers

/-!
# Messages of a datagram pair

A datagram is a two-byte length followed by the payload in the ring buffer of its
direction. A run keeps the messages whose send succeeded and what the receives returned,
for each direction. While every call meets the conditions of the framing, the ring holds
the frames of exactly the messages that are still to be received.
-/
namespace Kevlar.Watch
open StreamPair Function List

/-- The length in front of a message. -/
def header (len : ℕ) : List (BitVec 8) := [BitVec.ofNat 8 len, BitVec.ofNat 8 (len / 256)]

/-- A message as it lies in the ring. -/
def frame (m : List (BitVec 8)) : List (BitVec 8) := header m.length ++ m

namespace StreamPair

/-- The ring of the direction from end `e`. -/
def buf (p : StreamPair) (e : End) : ByteRing unixStreamBufSize := (p.side e).inner.buf

/-- The reader of the direction from end `e` is at its end once the ring is empty. -/
def closed (p : StreamPair) (e : End) : Bool := (p.side e).inner.shutWr || p.peerClosed

/-- The bytes that a read at end `e` writes to the user. -/
def delivered (p : StreamPair) (e : End) (dst : UserBufferMut) : List (BitVec 8) :=
  match ((if p.dgram then dgramReadOneBytes dst else copyOutBytes dst dst.len 0)
    (p.buf e.other)).1 with
  | .ok bytes => bytes
  | .error _ => []

end StreamPair

/-- One lock section of a call on a pair. -/
inductive PairCall
  | send (e : End) (src : UserBuffer) (attempt : Attempt)
  | receive (e : End) (dst : UserBufferMut) (attempt : Attempt)
  | shutdown (e : End) (how : ShutdownHow)
  | drop (e : End)

/-- A pair with the messages of both directions, named by the end that sends: those whose
send succeeded, and what each receive returned with the length of its buffer. -/
structure Exchange where
  pair : StreamPair
  sent : End → List (List (BitVec 8))
  got : End → List (List (BitVec 8) × ℕ)

namespace Exchange

def start (p : StreamPair) : Exchange := ⟨p, fun _ => [], fun _ => []⟩

/-- A receive that finds nothing in the ring and returns 0 is at the end of the stream and
returns no message. -/
def step (x : Exchange) : PairCall → Except IoError ℕ × Exchange
  | .send e src attempt =>
    match StreamPair.write e src attempt x.pair with
    | (.ok n, p) =>
      (.ok n, { x with pair := p, sent := update x.sent e (x.sent e ++ [src.bytes]) })
    | (.error err, p) => (.error err, { x with pair := p })
  | .receive e dst attempt =>
    match StreamPair.read e dst attempt x.pair with
    | (.ok n, p) =>
      (.ok n, { x with
        pair := p
        got := if (x.pair.buf e.other).isReadable then
            update x.got e.other (x.got e.other ++ [(x.pair.delivered e dst, dst.len)])
          else x.got })
    | (.error err, p) => (.error err, { x with pair := p })
  | .shutdown e how => (.ok 0, { x with pair := x.pair.shutdown e how })
  | .drop e => (.ok 0, { x with pair := x.pair.dropEnd e })

def run (x : Exchange) : List PairCall → Exchange
  | [] => x
  | c :: rest => run (x.step c).2 rest

/-- The messages of a direction that were sent and not yet received. -/
def pending (x : Exchange) (e : End) : List (List (BitVec 8)) :=
  (x.sent e).drop (x.got e).length

/-- Each receive returned the message of its number, cut to the length of the buffer, and
the ring holds the frames of the other messages. -/
def Intact (x : Exchange) (e : End) : Prop :=
  (x.got e).length ≤ (x.sent e).length ∧
  (∀ (i : ℕ) bytes len, (x.got e)[i]? = some (bytes, len) →
    ∃ m : List (BitVec 8), (x.sent e)[i]? = some m ∧ bytes = m.take len) ∧
  (x.pair.buf e).Holds ((x.pending e).flatMap frame)

/-- What a call has to meet. A send that is not refused has a length of 16 bits, room for
its length in one piece and a buffer in user memory; one that has slept finds no room or has
no bytes. A receive that finds a message has user memory for what it takes of it, and before
the direction is closed takes at least one byte. -/
def Meets (x : Exchange) : PairCall → Prop
  | .send e src (.first _) =>
    x.pair.closed e = false → wadd 2 src.bytes.length ≤ (x.pair.buf e).ring.free →
      src.bytes.length < 65536 ∧ 2 ≤ (x.pair.buf e).ring.writableContiguous ∧
        reachable src.base 0 src.bytes.length = true
  | .send e src (.woken signalled) =>
    signalled = false → x.pair.closed e = false →
      src.bytes = [] ∨ (x.pair.buf e).isWritable = false
  | .receive e dst attempt =>
    attempt.signalled = false → ∀ m, (x.pending e.other).head? = some m →
      reachable dst.base 0 (min m.length dst.len) = true ∧
        (x.pair.closed e.other = false → m ≠ [] ∧ 0 < dst.len)
  | _ => True

def AllMeet (x : Exchange) : List PairCall → Prop
  | [] => True
  | c :: rest => x.Meets c ∧ AllMeet (x.step c).2 rest

end Exchange

/-! ## Frames -/

open Fallible

lemma unixStreamBufSize_lt : unixStreamBufSize < 2 ^ 63 := by decide

lemma length_header (len : ℕ) : (header len).length = 2 := rfl

/-- Reading a header back. -/
lemma header_decode {len : ℕ} (h : len < 65536) :
    (BitVec.ofNat 8 len).toNat + 256 * (BitVec.ofNat 8 (len / 256)).toNat = len := by
  simp only [BitVec.toNat_ofNat]
  omega

variable {cap : ℕ}

variable {r : ByteRing cap}

variable {q : List (BitVec 8)}

lemma dgramHeader_holds (hcap : cap < 2 ^ 63) (len : ℕ) (h : r.Holds q)
    (hroom : 2 ≤ r.ring.writableContiguous) :
    ∃ r', (dgramHeader len).Returns r () r' ∧ r'.Holds (q ++ header len) := by
  refine ⟨r.commit (header len), ?_, h.commit hcap (by simp [header]) hroom⟩
  rw [dgramHeader, returns_modify, if_pos hroom, header]

lemma pop_one (hcap : cap < 2 ^ 63) {b : BitVec 8} (h : r.Holds (b :: q)) :
    ∃ r', (pop 1).Returns r (some [b]) r' ∧ r'.Holds q := by
  have hrp := r.rp_lt
  obtain ⟨k, r', hk, hk1, -, hpop, hrest, -⟩ :=
    h.pop_front hcap (cons_ne_nil b q) one_ne_zero (by omega)
  obtain rfl : k = 1 := by omega
  exact ⟨r', hpop, hrest⟩

/-- One message is read, cut to the length of the buffer. -/
lemma dgramReadOneBytes_holds (dst : UserBufferMut) (hcap : cap < 2 ^ 63)
    {m rest : List (BitVec 8)} (h : r.Holds (frame m ++ rest)) (hm : m.length < 65536)
    (hreach : reachable dst.base 0 (min m.length dst.len) = true) :
    (dgramReadOneBytes dst).Ends r (fun bytes r' => bytes = m.take dst.len ∧ r'.Holds rest)
      fun _ _ => False := by
  obtain ⟨r₁, hpop₁, h₁⟩ := pop_one hcap h
  obtain ⟨r₂, hpop₂, h₂⟩ := pop_one hcap h₁
  rw [dgramReadOneBytes, hpop₁.bind_ends_iff]
  rw [hpop₂.bind_ends_iff]
  dsimp only [headD_cons]
  rw [header_decode hm]
  have hpayload := dgramPayloadBytes_holds dst 0 hcap (show r₂.Holds (m ++ rest) from h₂) le_rfl
    (by omega)
  refine hpayload.mono (fun _ _ hb => hb) ?_
  rintro _ _ ⟨-, hfault⟩
  rw [zero_add, hreach] at hfault
  cases hfault

/-! ## Calls -/

namespace StreamPair

/-- Only the ring of the direction from `e` changes, to `b`. -/
structure RingSet (p : StreamPair) (e : End) (b : ByteRing unixStreamBufSize)
    (p' : StreamPair) : Prop where
  dgram : p'.dgram = p.dgram
  ring : p'.buf e = b
  other : p'.buf e.other = p.buf e.other

variable {p p' : StreamPair} {e : End} {b : ByteRing unixStreamBufSize}

lemma setSide_dgram (p : StreamPair) (e : End) (x : Gated StreamInner) :
    (p.setSide e x).dgram = p.dgram := by
  cases e <;> rfl

variable {x : Gated StreamInner} {f : End} {dst : UserBufferMut} {attempt : Attempt}

/-- A side changes, but not its ring. -/
lemma buf_setSide (hx : x.inner.buf = p.buf f) (e : End) :
    (p.setSide f x).buf e = p.buf e := by
  by_cases he : e = f
  · rw [he, buf, side_setSide_same, hx]
  · rw [buf, side_setSide_of_ne p he, buf]

lemma ringSet_self (p : StreamPair) (e : End) : RingSet p e (p.buf e) p := ⟨rfl, rfl, rfl⟩

section

variable (h : RingSet p e b p')
include h

lemma RingSet.setSide (hx : x.inner.buf = p'.buf f) : RingSet p e b (p'.setSide f x) where
  dgram := (p'.setSide_dgram f x).trans h.dgram
  ring := (buf_setSide hx e).trans h.ring
  other := (buf_setSide hx e.other).trans h.other

lemma RingSet.bump (f : End) : RingSet p e b (p'.bump f) := by
  refine h.setSide ?_
  unfold Gated.bumpGen
  split_ifs <;> rfl

lemma RingSet.shutSide (f : End) : RingSet p e b (p'.shutSide f) := by
  refine h.setSide ?_
  unfold Gated.change Gated.bumpGen
  split_ifs <;> rfl

lemma RingSet.withBuf (b' : ByteRing unixStreamBufSize) : RingSet p e b' (p'.withBuf e b') where
  dgram := (p'.setSide_dgram e _).trans h.dgram
  ring := by rw [buf, StreamPair.withBuf, side_setSide_same]
  other := by
    rw [buf, StreamPair.withBuf, side_setSide_of_ne p' (by cases e <;> decide)]
    exact h.other

end

lemma shutdown_ringSet (p : StreamPair) (e f : End) (how : ShutdownHow) :
    RingSet p e (p.buf e) (p.shutdown f how) := by
  have h := ringSet_self p e
  cases how with
  | wr => exact h.shutSide f
  | rd => exact h.shutSide f.other
  | rdWr => exact (h.shutSide f).shutSide f.other

lemma dropEnd_ringSet (p : StreamPair) (e f : End) : RingSet p e (p.buf e) (p.dropEnd f) := by
  have h : RingSet p e (p.buf e) { p with peerClosed := true } := by
    constructor <;> cases e <;> rfl
  exact (h.shutSide f).bump f.other

variable {src : UserBuffer} {q : List (BitVec 8)}

/-- The whole message is written behind the others, or nothing is. -/
lemma writeDgram_holds {idle : IoError} (h : (p.buf e).Holds q)
    (hroom : wadd 2 src.bytes.length ≤ (p.buf e).ring.free →
      src.bytes.length < 65536 ∧ 2 ≤ (p.buf e).ring.writableContiguous ∧
        reachable src.base 0 src.bytes.length = true) :
    (writeDgram e src idle).Ends p
      (fun _ p' => src.bytes.length < 65536 ∧
        ∃ b, RingSet p e b p' ∧ b.Holds (q ++ frame src.bytes))
      fun _ p' => p' = p := by
  change Ends (if wadd 2 src.bytes.length ≤ (p.buf e).ring.free then _ else _) p _ _
  split_ifs with hfree
  · obtain ⟨hshort, htwo, hreach⟩ := hroom hfree
    rw [wadd_of_lt (by omega)] at hfree
    obtain ⟨b₁, hheader, hb₁⟩ :=
      dgramHeader_holds unixStreamBufSize_lt src.bytes.length h htwo
    have hset₁ := (ringSet_self p e).withBuf b₁
    have hret : (onBuf e (dgramHeader src.bytes.length)).Returns p () (p.withBuf e b₁) := by
      unfold Returns onBuf
      rw [show dgramHeader src.bytes.length (p.side e).inner.buf = _ from hheader]
    rw [hret.bind_ends_iff]
    rw [← hset₁.ring] at hb₁
    have hcopy := copyIn_holds src 0 unixStreamBufSize_lt hb₁ (zero_add _).ge
    refine (onBuf_ends hcopy).bind ?_ fun err _ herr => ?_
    · rintro n _ ⟨b, ⟨-, hb⟩, rfl⟩
      refine ⟨hshort, b, (hset₁.withBuf b).bump e, ?_⟩
      have hall : src.bytes.take (unixStreamBufSize - (q ++ header src.bytes.length).length) =
          src.bytes := by
        apply take_of_length_le
        rw [RingBuffer.Represents.free_eq h] at hfree
        rw [List.length_append, length_header]
        omega
      rwa [drop_zero, hall, append_assoc] at hb
    · rw [hreach] at herr
      cases herr.2
  · exact ends_throw rfl

lemma closed_eq_false (hpeer : ¬ p.peerClosed = true) (hshut : ¬ (p.side e).inner.shutWr = true) :
    p.closed e = false := by
  rw [Bool.not_eq_true] at hpeer hshut
  rw [closed, hpeer, hshut, Bool.or_false]

/-- A send from its start. -/
lemma write_first_holds {nonblock : Bool} (hd : p.dgram = true) (h : (p.buf e).Holds q)
    (hroom : p.closed e = false → wadd 2 src.bytes.length ≤ (p.buf e).ring.free →
      src.bytes.length < 65536 ∧ 2 ≤ (p.buf e).ring.writableContiguous ∧
        reachable src.base 0 src.bytes.length = true) :
    (write e src (.first nonblock)).Ends p
      (fun _ p' => src.bytes.length < 65536 ∧
        ∃ b, RingSet p e b p' ∧ b.Holds (q ++ frame src.bytes))
      fun _ p' => p' = p := by
  unfold write
  rw [ends_get_bind]
  simp only [Attempt.signalled, Bool.false_eq_true, if_false, hd]
  split_ifs with hpeer hshut
  · exact ends_throw rfl
  · exact ends_throw rfl
  · exact writeDgram_holds h (hroom (closed_eq_false hpeer hshut))

/-- A send that slept and finds nothing to write goes back to sleep. -/
lemma write_woken_fails {signalled : Bool} (hd : p.dgram = true) (h : (p.buf e).Holds q)
    (hidle : signalled = false → p.closed e = false →
      src.bytes = [] ∨ (p.buf e).isWritable = false) :
    (write e src (.woken signalled)).Ends p (fun _ _ => False) fun _ p' => p' = p := by
  unfold write
  rw [ends_get_bind]
  cases signalled with
  | true => exact ends_throw rfl
  | false =>
    simp only [Attempt.signalled, Bool.false_eq_true, if_false, hd]
    split_ifs with hpeer hshut
    · exact ends_throw rfl
    · exact ends_throw rfl
    · have hnone : min (src.bytes.length - 0) (p.buf e).ring.writableContiguous = 0 := by
        rcases hidle rfl (closed_eq_false hpeer hshut) with hnil | hfull
        · rw [hnil]
          exact Nat.zero_min _
        · rw [← Bool.not_eq_true, h.isWritable_iff] at hfull
          have hspec := RingBuffer.Represents.writableContiguous_spec h
          omega
      have hret : (onBuf e (copyIn src src.bytes.length 0)).Returns p 0 p := by
        unfold Returns onBuf
        rw [show copyIn src src.bytes.length 0 (p.side e).inner.buf = _ from
          copyIn_idle _ hnone, withBuf_self]
      rw [hret.bind_ends_iff]
      exact ends_throw rfl

/-- A receive of a message. -/
lemma read_holds {m rest : List (BitVec 8)} (hd : p.dgram = true)
    (hsig : attempt.signalled = false) (h : (p.buf e.other).Holds (frame m ++ rest))
    (hm : m.length < 65536) (hreach : reachable dst.base 0 (min m.length dst.len) = true)
    (htake : p.closed e.other = false → m ≠ [] ∧ 0 < dst.len) :
    (read e dst attempt).Ends p
      (fun _ p' => p.delivered e dst = m.take dst.len ∧
        ∃ b, RingSet p e.other b p' ∧ b.Holds rest) fun _ _ => False := by
  have hloop := dgramReadOneBytes_holds dst unixStreamBufSize_lt h hm hreach
  unfold read
  rw [ends_get_bind]
  simp only [hsig, Bool.false_eq_true, if_false]
  match hx : dgramReadOneBytes dst (p.buf e.other) with
  | (.ok bytes, b) =>
    obtain ⟨hbytes, hb⟩ := hloop.returns hx
    have hdel : p.delivered e dst = bytes := by
      simp only [delivered, hd, if_true, hx]
    have hmove : (onBuf e.other (p.receive dst)).Returns p bytes.length
        (p.withBuf e.other b) := by
      unfold Returns onBuf receive
      rw [if_pos hd, dgramReadOne_eq]
      simp only [countFrom]
      rw [show dgramReadOneBytes dst (p.side e.other).inner.buf = _ from hx]
      simp only [zero_add]
      rfl
    have hset := (ringSet_self p e.other).withBuf b
    rw [hmove.bind_ends_iff]
    unfold report
    split_ifs with hpos
    · exact ⟨hdel.trans hbytes, b, hset.bump e.other, hb⟩
    · unfold emptyRead
      split_ifs with hclosed
      · exact ⟨hdel.trans hbytes, b, hset, hb⟩
      · -- the direction is open, so the message has delivered a byte
        rw [Bool.not_eq_true] at hclosed
        obtain ⟨hne, hlen⟩ := htake hclosed
        have hmpos := length_pos_iff.mpr hne
        rw [hbytes, length_take] at hpos
        omega
  | (.error err, b) => exact (hloop.fails hx).elim

/-- A receive that finds nothing. -/
lemma read_empty (hd : p.dgram = true) (h : (p.buf e.other).Holds []) :
    (read e dst attempt p).2 = p := by
  have hidle : (p.buf e.other).isReadable = false := by
    rw [← Bool.not_eq_true, h.isReadable_iff, not_not]
  have hmove : (onBuf e.other (p.receive dst)).Returns p 0 p := by
    unfold Returns onBuf receive
    rw [if_pos hd, show dgramReadOne dst (p.side e.other).inner.buf = _ from
      dgramReadOne_idle dst hidle, withBuf_self]
  have hends : (read e dst attempt).Ends p (fun _ p' => p' = p) fun _ p' => p' = p := by
    unfold read
    rw [ends_get_bind]
    split_ifs
    · exact ends_throw rfl
    · rw [hmove.bind_ends_iff]
      unfold report emptyRead
      split_ifs with hzero
      · exact absurd hzero (lt_irrefl 0)
      · exact ends_pure rfl
      · exact ends_throw rfl
  match hx : read e dst attempt p with
  | (.ok n, p') => exact hends.returns hx
  | (.error err, p') => exact hends.fails hx

end StreamPair

/-! ## Runs -/

/-- One direction: each receive returned its message, and the ring holds the frames of the
messages that are left. -/
structure Framed (sent : List (List (BitVec 8))) (got : List (List (BitVec 8) × ℕ))
    (r : ByteRing unixStreamBufSize) : Prop where
  length_le : got.length ≤ sent.length
  matched : ∀ (i : ℕ) bytes len, got[i]? = some (bytes, len) →
    ∃ m : List (BitVec 8), sent[i]? = some m ∧ bytes = m.take len
  short : ∀ m ∈ sent.drop got.length, m.length < 65536
  holds : r.Holds ((sent.drop got.length).flatMap frame)

namespace Framed

variable {sent : List (List (BitVec 8))} {got : List (List (BitVec 8) × ℕ)}
  {r r' : ByteRing unixStreamBufSize}

variable {m : List (BitVec 8)}

/-- A message joins the others. -/
lemma send (h : Framed sent got r) (hm : m.length < 65536)
    (hr : r'.Holds ((sent.drop got.length).flatMap frame ++ frame m)) :
    Framed (sent ++ [m]) got r' := by
  have hdrop : (sent ++ [m]).drop got.length = sent.drop got.length ++ [m] :=
    drop_append_of_le_length h.length_le
  constructor
  · rw [List.length_append]
    exact h.length_le.trans (Nat.le_add_right _ _)
  · intro i bytes len hi
    obtain ⟨m', hm', hbytes⟩ := h.matched i bytes len hi
    have hlt := (List.getElem?_eq_some_iff.mp hm').1
    exact ⟨m', by rwa [List.getElem?_append_left hlt], hbytes⟩
  · intro m' hm'
    rw [hdrop, mem_append, mem_singleton] at hm'
    rcases hm' with hold | rfl
    · exact h.short m' hold
    · exact hm
  · rw [hdrop, flatMap_append]
    simpa using hr

/-- The first message that is left is received. -/
lemma receive (h : Framed sent got r) {rest : List (List (BitVec 8))} (len : ℕ)
    (hleft : sent.drop got.length = m :: rest) (hr : r'.Holds (rest.flatMap frame)) :
    Framed sent (got ++ [(m.take len, len)]) r' := by
  have hm : sent[got.length]? = some m := by
    rw [← List.head?_drop, hleft, List.head?_cons]
  have hdrop : sent.drop (got ++ [(m.take len, len)]).length = rest := by
    rw [List.length_append, List.length_singleton, ← List.drop_drop, hleft, List.drop_one,
      List.tail_cons]
  have hlt := (List.getElem?_eq_some_iff.mp hm).1
  constructor
  · rw [List.length_append, List.length_singleton]
    exact hlt
  · intro i bytes len' hi
    rcases lt_trichotomy i got.length with hlt' | rfl | hgt
    · rw [List.getElem?_append_left hlt'] at hi
      exact h.matched i bytes len' hi
    · rw [getElem?_concat_length, Option.some.injEq, Prod.mk.injEq] at hi
      obtain ⟨rfl, rfl⟩ := hi
      exact ⟨m, hm, rfl⟩
    · rw [getElem?_eq_none (by rw [List.length_append, List.length_singleton]; omega)] at hi
      cases hi
  · intro m' hm'
    rw [hdrop] at hm'
    exact h.short m' (by rw [hleft]; exact mem_cons_of_mem m hm')
  · rw [hdrop]
    exact hr

end Framed

namespace Exchange

variable {x : Exchange}

/-- What every state of a run satisfies. -/
structure Inv (x : Exchange) : Prop where
  dgram : x.pair.dgram = true
  framed : ∀ e, Framed (x.sent e) (x.got e) (x.pair.buf e)

lemma Inv.intact (h : x.Inv) (e : End) : x.Intact e :=
  ⟨(h.framed e).length_le, (h.framed e).matched, (h.framed e).holds⟩

variable {e : End}

/-- A call changes one direction at most. -/
lemma Inv.set (h : x.Inv) {b : ByteRing unixStreamBufSize} {x' : Exchange}
    (hset : x.pair.RingSet e b x'.pair) (hsent : x'.sent e.other = x.sent e.other)
    (hgot : x'.got e.other = x.got e.other) (hframed : Framed (x'.sent e) (x'.got e) b) :
    x'.Inv where
  dgram := hset.dgram.trans h.dgram
  framed f := by
    have hf : f = e ∨ f = e.other := by
      cases e <;> cases f <;> decide
    rcases hf with rfl | rfl
    · rw [hset.ring]
      exact hframed
    · rw [hset.other, hsent, hgot]
      exact h.framed e.other

lemma Inv.keep (h : x.Inv) {p : StreamPair} (hset : x.pair.RingSet e (x.pair.buf e) p) :
    ({ x with pair := p } : Exchange).Inv :=
  h.set hset rfl rfl (h.framed e)

lemma End.other_ne (e : End) : e.other ≠ e := by
  cases e <;> decide

variable {attempt : Attempt}

lemma Inv.send (h : x.Inv) {src : UserBuffer} (hc : x.Meets (.send e src attempt)) :
    (x.step (.send e src attempt)).2.Inv := by
  have hframed := h.framed e
  match hx : write e src attempt x.pair with
  | (.error err, p) =>
    obtain rfl : p = x.pair := by
      cases attempt with
      | first nonblock => exact (write_first_holds h.dgram hframed.holds hc).fails hx
      | woken signalled => exact (write_woken_fails h.dgram hframed.holds hc).fails hx
    rw [Exchange.step, hx]
    exact h
  | (.ok n, p) =>
    cases attempt with
    | first nonblock =>
      obtain ⟨hm, b, hset, hb⟩ := (write_first_holds h.dgram hframed.holds hc).returns hx
      rw [Exchange.step, hx]
      refine h.set hset (update_of_ne (End.other_ne e) _ _) rfl ?_
      dsimp only
      rw [update_self]
      exact hframed.send hm hb
    | woken signalled => exact ((write_woken_fails h.dgram hframed.holds hc).returns hx).elim

lemma Inv.receive (h : x.Inv) {dst : UserBufferMut} (hc : x.Meets (.receive e dst attempt)) :
    (x.step (.receive e dst attempt)).2.Inv := by
  have hframed := h.framed e.other
  by_cases hsig : attempt.signalled = true
  · have hx : (StreamPair.read e dst attempt).Fails x.pair .EINTR x.pair := by
      unfold Fails StreamPair.read
      simp only [hsig, if_true]
      rfl
    rw [Exchange.step, hx]
    exact h
  rw [Bool.not_eq_true] at hsig
  cases hleft : x.pending e.other with
  | nil =>
    -- nothing is left: the pair does not change, and nothing is received
    have hempty : (x.pair.buf e.other).Holds [] := by
      have hholds := hframed.holds
      rwa [show (x.sent e.other).drop (x.got e.other).length = [] from hleft,
        flatMap_nil] at hholds
    have hsame : (StreamPair.read e dst attempt x.pair).2 = x.pair := read_empty h.dgram hempty
    have hidle : ¬ (x.pair.buf e.other).isReadable = true := by
      rw [hempty.isReadable_iff, not_not]
    rcases hx : StreamPair.read e dst attempt x.pair with ⟨err | n, p⟩
    · rw [hx] at hsame
      obtain rfl : p = x.pair := hsame
      rw [Exchange.step, hx]
      exact h
    · rw [hx] at hsame
      obtain rfl : p = x.pair := hsame
      rw [Exchange.step, hx, if_neg hidle]
      exact h
  | cons m rest =>
    have hholds := hframed.holds
    rw [show (x.sent e.other).drop (x.got e.other).length = m :: rest from hleft,
      flatMap_cons] at hholds
    have hm : m.length < 65536 :=
      hframed.short m (by rw [show drop _ _ = _ from hleft]; exact mem_cons_self)
    have hread : (x.pair.buf e.other).isReadable = true := by
      rw [hholds.isReadable_iff]
      exact cons_ne_nil _ _
    obtain ⟨hreach, htake⟩ := hc hsig m (by rw [hleft, List.head?_cons])
    have hends := read_holds h.dgram hsig hholds hm hreach htake
    rcases hx : StreamPair.read e dst attempt x.pair with ⟨err | n, p⟩
    · exact (hends.fails hx).elim
    · obtain ⟨hdel, b, hset, hb⟩ := hends.returns hx
      rw [Exchange.step, hx, if_pos hread, hdel]
      refine h.set hset rfl (update_of_ne (End.other_ne _) _ _) ?_
      dsimp only
      rw [update_self]
      exact hframed.receive dst.len hleft hb

lemma Inv.step (h : x.Inv) {c : PairCall} (hc : x.Meets c) : (x.step c).2.Inv := by
  cases c with
  | send e src attempt => exact h.send hc
  | receive e dst attempt => exact h.receive hc
  | shutdown e how => exact h.keep (x.pair.shutdown_ringSet e e how)
  | drop e => exact h.keep (x.pair.dropEnd_ringSet e e)

lemma Inv.run (h : x.Inv) {calls : List PairCall} (hcalls : x.AllMeet calls) :
    (x.run calls).Inv := by
  induction calls generalizing x with
  | nil => exact h
  | cons c rest ih => exact ih (h.step hcalls.1) hcalls.2

/-- In every run of calls that meet the conditions, on a datagram pair whose rings are empty
at any position, both directions deliver their messages. -/
theorem intact_run (p : StreamPair) (hdgram : p.dgram = true)
    (hempty : ∀ e, (p.buf e).Holds []) (calls : List PairCall)
    (hcalls : (start p).AllMeet calls) (e : End) : ((start p).run calls).Intact e := by
  have hstart : (start p).Inv := by
    refine ⟨hdgram, fun f => ⟨le_rfl, ?_, ?_, hempty f⟩⟩
    · intro i bytes len hi
      cases hi
    · intro m hm
      cases hm
  exact (hstart.run hcalls).intact e

/-- A datagram pair with empty rings at position `pos`. -/
def pairAt (pos : ℕ) (h : pos < unixStreamBufSize) : StreamPair where
  a := .new ⟨⟨⟨fun _ => 0, pos, pos, false⟩, h, h⟩, false⟩
  b := .new ⟨⟨⟨fun _ => 0, pos, pos, false⟩, h, h⟩, false⟩
  peerClosed := false
  dgram := true

lemma pairAt_empty (pos : ℕ) (h : pos < unixStreamBufSize) (e : End) :
    ((pairAt pos h).buf e).Holds [] := by
  have hempty : ({ buf := fun _ => 0, rp := pos, wp := pos, full := false } :
      RingBuffer (BitVec 8) unixStreamBufSize).Represents [] := by
    refine ⟨h, Nat.zero_le _, ?_, rfl, fun i hi => absurd hi (Nat.not_lt_zero i)⟩
    exact (Nat.mod_eq_of_lt h).symm
  cases e <;> exact hempty

/-- Two messages whose payloads wrap, the first one cut by its receive. -/
theorem intact_run_wrapping :
    ((start (pairAt 262141 (by decide))).run [.send .a ⟨some 4096, [1, 2, 3]⟩ (.first false),
      .send .a ⟨some 4096, [4]⟩ (.first true), .receive .b ⟨some 8192, 2, by decide⟩
      (.first false), .receive .b ⟨some 8192, 8, by decide⟩ (.woken false)]).Intact .a := by
  refine intact_run _ rfl (pairAt_empty _ _) _ ?_ .a
  refine ⟨fun _ _ => by decide +kernel, fun _ _ => by decide +kernel, fun _ m hm => ?_,
    fun _ m hm => ?_, trivial⟩
  · obtain rfl : [1, 2, 3] = m := Option.some.inj (Eq.trans (by decide +kernel) hm)
    exact ⟨by decide, fun _ => by decide⟩
  · obtain rfl : [4] = m := Option.some.inj (Eq.trans (by decide +kernel) hm)
    exact ⟨by decide, fun _ => by decide⟩

/-- An empty message is taken out of the ring by a receive that fails, and the receive
after it returns the second message first. A message whose length would straddle the end
of the ring is written without it, and a part of its bytes is taken for the length. -/
theorem message_lost :
    let x := (start (pairAt 0 (by decide))).run [.send .a ⟨some 4096, []⟩ (.first false),
      .send .a ⟨some 4096, [7]⟩ (.first false), .receive .b ⟨some 8192, 8, by decide⟩
      (.first true), .receive .b ⟨some 8192, 8, by decide⟩ (.first true)]
    let y := (start (pairAt 262143 (by decide))).run [.send .a ⟨some 4096, [1, 0, 3]⟩
      (.first false), .receive .b ⟨some 8192, 8, by decide⟩ (.first true)]
    x.sent .a = [[], [7]] ∧ x.got .a = [([7], 8)] ∧
      y.sent .a = [[1, 0, 3]] ∧ y.got .a = [([3], 8)] := by
  decide +kernel

end Exchange

end Kevlar.Watch
