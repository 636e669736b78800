import Getty.Verified.Freeze
import Mathlib.Data.List.Induction

/-!
# Setting the compression

`SetCompressType` of a TCP and of a websocket connection, against the calls that use what
it sets.  On a TCP connection it installs a codec: a reader and a writer over a pair of
polling ends, the poller itself for `recv`, a flag, a copy of `CodecStallTimeout` and the
type.  `recv` and `Send` take a snapshot under the lock, mark the stream as started, and
read the flag and the timeout again later, without the lock.  On a websocket connection it
sets two fields of the underlying connection under `writeLock`, which every message write
holds; a read marks the stream as started under `readLock`, which excludes no setter.

Both are cases of an object that is configured until its first use, with every assignment
and every read a step of its own.

## Main results

* `tcp_codec_frozen` — all IO of a TCP connection goes through one codec, or none.
* `ws_compression_frozen` — all messages of a websocket connection are written alike.
-/

namespace Getty.Transport.CompressType

open Getty.Verified Getty.Verified.ThreadPool Getty.Verified.Freeze

/-! ## Compress types -/

def compressNone : Int := 0

def compressZip : Int := -1

def compressBestSpeed : Int := 1

def compressBestCompression : Int := 9

def compressHuffman : Int := -2

def compressSnappy : Int := 10

/-- The types that are levels of `compress/flate`; all of them are valid levels there. -/
def isFlate (c : Int) : Bool :=
  [compressNone, compressZip, compressBestSpeed, compressBestCompression,
    compressHuffman].contains c

/-! ## TCP -/

/-- `reader`: the connection, or a decoder over a poller. -/
inductive Reader where
  | conn
  | flate (poller : Nat)
  | snappy (poller : Nat)
  deriving Repr, DecidableEq

/-- `writer`: the connection, or a flusher for an encoder over a polling writer. -/
inductive Writer where
  | conn
  | writeFlusher (pollWriter : Nat) (level : Int)
  | snappyWriteFlusher (pollWriter : Nat)
  deriving Repr, DecidableEq

/-- The codec fields of `gettyTCPConn`. -/
structure TcpCodec where
  reader : Reader
  writer : Writer
  pollReader : Option Nat
  codecEnabled : Bool
  codecStallTimeout : Int
  compress : Int
  deriving Repr, DecidableEq

/-- The fields as `newGettyTCPConn` sets them. -/
def newGettyTCPConn : TcpCodec := ⟨.conn, .conn, none, false, 0, compressNone⟩

/-- The assignments of `SetCompressType`. -/
inductive TcpAssign where
  | reader (r : Reader)
  | writer (w : Writer)
  | pollReader (poller : Nat)
  | codecEnabled
  | codecStallTimeout (t : Int)
  | compress (c : Int)
  deriving Repr, DecidableEq

def TcpAssign.apply (t : TcpCodec) : TcpAssign → TcpCodec
  | .reader r => { t with reader := r }
  | .writer w => { t with writer := w }
  | .pollReader p => { t with pollReader := some p }
  | .codecEnabled => { t with codecEnabled := true }
  | .codecStallTimeout d => { t with codecStallTimeout := d }
  | .compress c => { t with compress := c }

/-- A call of `SetCompressType`: the poller and the polling writer it makes, its argument,
and what it finds in `CodecStallTimeout`. -/
structure Install where
  poller : Nat
  type : Int
  stall : Int
  deriving Repr, DecidableEq

/-- The assignments, in the order of the source; an illegal type is a panic. -/
def setCompressType (a : Install) : Option (List TcpAssign) :=
  if isFlate a.type then
    some [.reader (.flate a.poller), .writer (.writeFlusher a.poller a.type),
      .pollReader a.poller, .codecEnabled, .codecStallTimeout a.stall, .compress a.type]
  else if a.type = compressSnappy then
    some [.reader (.snappy a.poller), .writer (.snappyWriteFlusher a.poller),
      .pollReader a.poller, .codecEnabled, .codecStallTimeout a.stall, .compress a.type]
  else none

/-- `SetCompressType` calls against `recv` and `Send` calls.  These take one snapshot under
the lock, and look at the fields any number of times later. -/
def tcp : Spec Install TcpAssign TcpCodec where
  assignments := setCompressType
  apply := TcpAssign.apply
  entry
    | .lockSet _ => true
    | .lockUse held _ => held == 1
    | _ => false

/-- The codec fields of a complete installation. -/
def Install.codec (a : Install) : TcpCodec where
  reader := if isFlate a.type then .flate a.poller else .snappy a.poller
  writer := if isFlate a.type then .writeFlusher a.poller a.type else .snappyWriteFlusher a.poller
  pollReader := some a.poller
  codecEnabled := true
  codecStallTimeout := a.stall
  compress := a.type

/-- A complete installation replaces every field. -/
private theorem foldl_setCompressType (t : TcpCodec) {a : Install} {us : List TcpAssign}
    (h : setCompressType a = some us) : us.foldl TcpAssign.apply t = a.codec := by
  unfold setCompressType at h
  split at h
  · next hflate =>
      cases h
      simp [TcpAssign.apply, Install.codec, hflate]
  · next hflate =>
      split at h
      · cases h
        simp [TcpAssign.apply, Install.codec, hflate]
      · cases h

/-- What any setters leave is the plain connection or one complete installation. -/
private theorem result_tcp (sets : List Install) :
    result tcp newGettyTCPConn sets = newGettyTCPConn ∨
      ∃ a ∈ sets, (setCompressType a).isSome = true ∧
        result tcp newGettyTCPConn sets = a.codec := by
  induction sets using List.reverseRecOn with
  | nil => exact Or.inl rfl
  | append_singleton sets a ih =>
      rw [result_append]
      cases ha : setCompressType a with
      | none =>
          have heff : effect tcp a = [] := by simp [effect, tcp, ha]
          rw [heff, List.foldl_nil]
          rcases ih with ih | ⟨b, hb, hsome, ih⟩
          · exact Or.inl ih
          · exact Or.inr ⟨b, List.mem_append_left _ hb, hsome, ih⟩
      | some us =>
          have heff : effect tcp a = us := by simp [effect, tcp, ha]
          rw [heff]
          exact Or.inr ⟨a, by simp, by rw [ha]; rfl, foldl_setCompressType _ ha⟩

/-- **One codec for all IO.**  `SetCompressType`, `recv` and `Send` are called concurrently,
in any number and with any arguments.  Everything that `recv` and `Send` have read, in their
snapshots and later without the lock, are the fields of the plain connection, or all of it
are those of one complete `SetCompressType` call with a legal type.  Once a `recv` or `Send`
has started, the fields never change, no `SetCompressType` returns, and whatever is read
later is the same. -/
theorem tcp_codec_frozen (c : Conf (Shared Install TcpCodec) (Thread Install TcpAssign))
    (h : (prog tcp).Reaches (initial newGettyTCPConn) c) :
    ((∀ seen ∈ c.shared.reads, seen = newGettyTCPConn) ∨
      ∃ a ∈ c.shared.sets, (setCompressType a).isSome = true ∧
        ∀ seen ∈ c.shared.reads, seen = a.codec) ∧
    ∀ c', (prog tcp).Reaches c c' → c.shared.used = true →
      c'.shared.config = c.shared.config ∧ c'.shared.sets = c.shared.sets ∧
        ∀ seen ∈ c'.shared.reads, seen = c.shared.config := by
  constructor
  · rcases result_tcp c.shared.sets with hplain | ⟨a, ha, hlegal, hcodec⟩
    · exact Or.inl fun seen hseen => (reads_agree h seen hseen).trans hplain
    · exact Or.inr ⟨a, ha, hlegal, fun seen hseen => (reads_agree h seen hseen).trans hcodec⟩
  · intro c' h' hused
    exact frozen h hused h'

/-- A zip codec is installed while a `Send` waits; then snappy comes too late. -/
def zipThenSnappy : List (Move (Thread Install TcpAssign)) :=
  [.start (.lockSet ⟨0, compressZip, 300⟩), .start (.lockUse 1 1),
    .start (.lockSet ⟨1, compressSnappy, 600⟩)] ++ List.replicate 9 (.fire 0 0) ++
    [.fire 0 0, .fire 0 0, .fire 0 0, .fire 0 0, .fire 1 0, .fire 0 0, .fire 1 0]

theorem tcp_codec_frozen_zip :
    ∃ c, (prog tcp).run (initial newGettyTCPConn) zipThenSnappy = some c ∧
      c.shared.panics = [⟨1, compressSnappy, 600⟩] ∧ c.shared.reads.length = 2 ∧
      ∀ c', (prog tcp).Reaches c c' → ∀ seen ∈ c'.shared.reads,
        seen = Install.codec ⟨0, compressZip, 300⟩ :=
  ⟨_, rfl, rfl, rfl, fun c' h' =>
    ((tcp_codec_frozen _ ⟨zipThenSnappy, rfl⟩).2 c' h' rfl).2.2⟩

/-! ## Websocket -/

/-- The compression fields of the underlying connection, and the recorded type. -/
structure WsCompression where
  enableWriteCompression : Bool
  compressionLevel : Int
  compress : Int
  deriving Repr, DecidableEq

/-- The fields as `newGettyWSConn` leaves them, from the library's level. -/
def newGettyWSConn (level : Int) : WsCompression := ⟨false, level, compressNone⟩

inductive WsAssign where
  | enableWriteCompression
  | setCompressionLevel (c : Int)
  | compress (c : Int)
  deriving Repr, DecidableEq

def WsAssign.apply (w : WsCompression) : WsAssign → WsCompression
  | .enableWriteCompression => { w with enableWriteCompression := true }
  | .setCompressionLevel c => { w with compressionLevel := c }
  | .compress c => { w with compress := c }

/-- `gettyWSConn.SetCompressType` after its check of the type. -/
def wsSetCompressType (c : Int) : List WsAssign :=
  [.enableWriteCompression, .setCompressionLevel c, .compress c]

/-- The calls that get as far as a lock: setters with a legal type, message writes, and
reads, which only mark the stream as started. -/
def ws : Spec Int WsAssign WsCompression where
  assignments c := some (wsSetCompressType c)
  apply := WsAssign.apply
  entry
    | .lockSet c => isFlate c
    | .lockUse held free => held == 1 && free == 0
    | .mark => true
    | _ => false

private theorem result_ws (level : Int) (sets : List Int) :
    result ws (newGettyWSConn level) sets = newGettyWSConn level ∧ sets = [] ∨
      ∃ c ∈ sets, result ws (newGettyWSConn level) sets = ⟨true, c, c⟩ := by
  induction sets using List.reverseRecOn with
  | nil => exact Or.inl ⟨rfl, rfl⟩
  | append_singleton sets c _ =>
      rw [result_append]
      exact Or.inr ⟨c, by simp, rfl⟩

/-- **All messages are written alike.**  `SetCompressType`, message writes and reads are
called concurrently on a websocket connection.  Every message that was written, a ping, a
pong or a close frame included, was written with one and the same setting: no compression,
or the level of one legal `SetCompressType` call.  After the first message the setting never
changes, though a setter may still run when a read has started. -/
theorem ws_compression_frozen (level : Int)
    (c : Conf (Shared Int WsCompression) (Thread Int WsAssign))
    (h : (prog ws).Reaches (initial (newGettyWSConn level)) c) :
    ((∀ seen ∈ c.shared.reads, seen = newGettyWSConn level) ∨
      ∃ t ∈ c.shared.sets, isFlate t = true ∧ ∀ seen ∈ c.shared.reads, seen = ⟨true, t, t⟩) ∧
    ∀ c', (prog ws).Reaches c c' → c.shared.used = true →
      c'.shared.config = c.shared.config ∧ c'.shared.sets = c.shared.sets ∧
        ∀ seen ∈ c'.shared.reads, seen = c.shared.config := by
  constructor
  · rcases result_ws level c.shared.sets with ⟨hplain, -⟩ | ⟨t, ht, hset⟩
    · exact Or.inl fun seen hseen => (reads_agree h seen hseen).trans hplain
    · exact Or.inr ⟨t, ht, sets_admitted h t ht,
        fun seen hseen => (reads_agree h seen hseen).trans hset⟩
  · intro c' h' hused
    exact frozen h hused h'

/-- A read starts, a setter has passed its check before and goes on, and a message follows. -/
def readThenWrite : List (Move (Thread Int WsAssign)) :=
  [.start (.lockSet compressBestSpeed), .fire 0 0, .fire 0 0, .start .mark, .fire 1 0,
    .fire 0 0, .fire 0 0, .fire 0 0, .fire 0 0, .start (.lockUse 1 0)] ++
    List.replicate 5 (.fire 0 0)

theorem ws_compression_frozen_best_speed :
    ∃ c, (prog ws).run (initial (newGettyWSConn 1)) readThenWrite = some c ∧
      c.shared.reads = [⟨true, 1, 1⟩] ∧
      ∀ c', (prog ws).Reaches c c' → ∀ seen ∈ c'.shared.reads, seen = ⟨true, 1, 1⟩ :=
  ⟨_, rfl, rfl, fun c' h' =>
    ((ws_compression_frozen 1 _ ⟨readThenWrite, rfl⟩).2 c' h' rfl).2.2⟩

end Getty.Transport.CompressType
