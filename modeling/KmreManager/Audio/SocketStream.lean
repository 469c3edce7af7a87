import KmreManager.Lib.Runs
import KmreManager.Lib.ByteStream

/-! # SocketStream

audio/common/socket/SocketStream.cpp. `writeFully` and `readFully` go on until
the whole buffer is through, whatever part of it a `send` or a `recv` takes.
Here is one direction of a connection, between the `writeFully` of one end and
the `readFully` of the other; one action is the beginning of a call or one turn
of its loop. -/
namespace KmreManager.Audio.SocketStream

open Lib Lib.Runs

def EINTR : Int := 4

/-- What `send` or `recv` returns: a number of bytes, or -1 with an errno. -/
inductive Answer
  | bytes (n : Nat)
  | failed (errno : Int)
deriving DecidableEq

structure Connection where
  socket : ByteStream UInt8 := .empty
  /-- what the `writeFully` under way has not sent yet -/
  writing : Option (List UInt8) := none
  /-- how much the `readFully` under way still needs, and what it has -/
  reading : Option (Nat × List UInt8) := none
  /-- the buffers of the calls of `writeFully`, and what the calls returned -/
  buffers : List (List UInt8) := []
  writeResults : List Int := []
  /-- the lengths that `readFully` was asked for, and the buffers it filled -/
  lengths : List Nat := []
  readResults : List (Option (List UInt8)) := []

namespace Connection

/-- `while (res > 0)` of `writeFully`, with `rest` to send. -/
def writeLoop (c : Connection) (rest : List UInt8) : Connection :=
  if rest = [] then { c with writing := none, writeResults := c.writeResults ++ [0] }
  else { c with writing := some rest }

/-- `while (res > 0)` of `readFully`. -/
def readLoop (c : Connection) (res : Nat) (buf : List UInt8) : Connection :=
  if res = 0 then { c with reading := none, readResults := c.readResults ++ [some buf] }
  else { c with reading := some (res, buf) }

/-- `readFully` returns NULL. -/
def readNull (c : Connection) : Connection :=
  { c with reading := none, readResults := c.readResults ++ [none] }

def sendTurn (c : Connection) (rest : List UInt8) : Answer → Option Connection
  | .bytes n =>
    if n ≤ rest.length then
      some ({ c with socket := c.socket.write (rest.take n) }.writeLoop (rest.drop n))
    else none
  | .failed errno =>
    if errno = EINTR then some c
    else some { c with writing := none, writeResults := c.writeResults ++ [-1] }

def recvTurn (c : Connection) (res : Nat) (buf : List UInt8) : Answer → Option Connection
  | .bytes n =>
    if n ≤ res ∧ n ≤ c.socket.inFlight.length then
      if n > 0 then
        some ({ c with socket := c.socket.read n }.readLoop (res - n)
          (buf ++ c.socket.inFlight.take n))
      else some c.readNull
    else none
  | .failed errno => if errno = EINTR then some c else some c.readNull

end Connection

inductive Action
  | writeFully (buffer : List UInt8)
  | send (stat : Answer)
  | readFully (len : Nat)
  | recv (stat : Answer)
deriving DecidableEq

def step (c : Connection) : Action → Option Connection
  | .writeFully buffer =>
    if c.writing.isNone then some ({ c with buffers := c.buffers ++ [buffer] }.writeLoop buffer)
    else none
  | .send stat => c.writing.bind fun rest => c.sendTurn rest stat
  | .readFully len =>
    if c.reading.isNone then some ({ c with lengths := c.lengths ++ [len] }.readLoop len [])
    else none
  | .recv stat => c.reading.bind fun r => c.recvTurn r.1 r.2 stat

/-- The buffers that were filled. -/
def Connection.received (c : Connection) : List (List UInt8) := c.readResults.filterMap id

/-- No `writeFully` has failed. -/
def Connection.WritesWell (c : Connection) : Prop := ∀ stat ∈ c.writeResults, stat = 0

/-- No `readFully` has failed. -/
def Connection.ReadsWell (c : Connection) : Prop := none ∉ c.readResults

instance (c : Connection) : Decidable c.WritesWell :=
  inferInstanceAs (Decidable (∀ stat ∈ c.writeResults, stat = 0))

instance (c : Connection) : Decidable c.ReadsWell :=
  inferInstanceAs (Decidable (none ∉ c.readResults))

/-- The workers drop a stream whose call has failed. -/
def Careful (c : Connection) : Action → Prop
  | .writeFully _ => c.WritesWell
  | .readFully _ => c.ReadsWell
  | .send _ | .recv _ => True

instance : ∀ (c : Connection) (a : Action), Decidable (Careful c a)
  | c, .writeFully _ => inferInstanceAs (Decidable c.WritesWell)
  | c, .readFully _ => inferInstanceAs (Decidable c.ReadsWell)
  | _, .send _ => .isTrue trivial
  | _, .recv _ => .isTrue trivial

variable {c c' : Connection} {a : Action} {rest buf : List UInt8} {res : Nat} {stat : Answer}

/-! ## The writing end -/

/-- What was put into the socket is the beginning of the buffers, and all of
them but for what the loop still has to send. -/
structure Writer (c : Connection) : Prop where
  unbroken : c.writing ≠ none → c.WritesWell
  prefixed : c.socket.put <+: c.buffers.flatten
  whole : c.WritesWell → c.socket.put ++ c.writing.getD [] = c.buffers.flatten

theorem Writer.writeLoop (hwell : c.WritesWell)
    (hput : c.socket.put ++ rest = c.buffers.flatten) : Writer (c.writeLoop rest) := by
  unfold Connection.writeLoop
  split
  next hrest =>
    subst hrest
    exact ⟨fun h => absurd rfl h, ⟨[], hput⟩, fun _ => hput⟩
  next hrest => exact ⟨fun _ => hwell, ⟨rest, hput⟩, fun _ => hput⟩

theorem Writer.sendTurn (hc : Writer c) (hwriting : c.writing = some rest)
    (h : c.sendTurn rest stat = some c') : Writer c' := by
  have hwell := hc.unbroken (by rw [hwriting]; exact Option.some_ne_none rest)
  cases stat with
  | bytes n =>
    obtain ⟨hn, hsent⟩ := Option.ite_none_right_eq_some.mp h
    obtain rfl := Option.some.inj hsent
    refine Writer.writeLoop hwell ?_
    have hput := hc.whole hwell
    rw [hwriting] at hput
    rw [ByteStream.write_put, List.append_assoc, List.take_append_drop]
    exact hput
  | failed errno =>
    rw [Connection.sendTurn] at h
    split at h
    · obtain rfl := Option.some.inj h
      exact hc
    · obtain rfl := Option.some.inj h
      refine ⟨fun hne => absurd rfl hne, hc.prefixed, fun hcontra => ?_⟩
      exact absurd (hcontra (-1) (by simp)) (by decide)

/-! ## The reading end -/

/-- What was taken out of the socket is in the buffers, which have the lengths
asked for. -/
structure Reader (c : Connection) : Prop where
  unbroken : c.reading ≠ none → c.ReadsWell
  prefixed : c.received.flatten <+: c.socket.taken
  lengths : c.received.map List.length <+: c.lengths
  whole : c.ReadsWell → c.received.flatten ++ (c.reading.map Prod.snd).getD [] = c.socket.taken ∧
    c.received.map List.length ++ (c.reading.map fun r => r.1 + r.2.length).toList = c.lengths

theorem Reader.readLoop (hwell : c.ReadsWell)
    (hreceived : c.received.flatten ++ buf = c.socket.taken)
    (hlengths : c.received.map List.length ++ [res + buf.length] = c.lengths) :
    Reader (c.readLoop res buf) := by
  unfold Connection.readLoop
  split
  next hres =>
    subst hres
    have hlast : (c.readResults ++ [some buf]).filterMap id = c.received ++ [buf] := by
      simp [Connection.received]
    have htaken : (c.received ++ [buf]).flatten = c.socket.taken := by
      rw [List.flatten_append, List.flatten_singleton, hreceived]
    have hall : (c.received ++ [buf]).map List.length = c.lengths := by
      rw [← hlengths, List.map_append, List.map_singleton, Nat.zero_add]
    refine ⟨fun h => absurd rfl h, ?_, ?_, fun _ => ⟨?_, ?_⟩⟩
    · exact ⟨[], by rw [List.append_nil, Connection.received, hlast, htaken]⟩
    · exact ⟨[], by rw [List.append_nil, Connection.received, hlast, hall]⟩
    · simpa [Connection.received, hlast] using htaken
    · simpa [Connection.received, hlast] using hall
  next hres =>
    exact ⟨fun _ => hwell, ⟨buf, hreceived⟩, ⟨[res + buf.length], hlengths⟩,
      fun _ => ⟨hreceived, hlengths⟩⟩

theorem Reader.readNull (hc : Reader c) : Reader c.readNull := by
  have hsame : c.readNull.received = c.received := by
    simp [Connection.readNull, Connection.received]
  refine ⟨fun h => absurd rfl h, ?_, ?_, fun hcontra => absurd ?_ hcontra⟩
  · exact hsame ▸ hc.prefixed
  · exact hsame ▸ hc.lengths
  · simp [Connection.readNull]

theorem Reader.recvTurn (hc : Reader c) (hreading : c.reading = some (res, buf))
    (h : c.recvTurn res buf stat = some c') : Reader c' := by
  have hwell := hc.unbroken (by rw [hreading]; exact Option.some_ne_none _)
  obtain ⟨hreceived, hlengths⟩ := hc.whole hwell
  rw [hreading] at hreceived hlengths
  cases stat with
  | bytes n =>
    obtain ⟨⟨hres, hflight⟩, htaken⟩ := Option.ite_none_right_eq_some.mp h
    split at htaken
    · obtain rfl := Option.some.inj htaken
      refine Reader.readLoop hwell ?_ ?_
      · rw [ByteStream.read_taken, ← List.append_assoc]
        exact congrArg (· ++ _) hreceived
      · have hlen : res - n + (buf ++ c.socket.inFlight.take n).length = res + buf.length := by
          rw [List.length_append, List.length_take, Nat.min_eq_left hflight]
          omega
        rw [hlen]
        exact hlengths
    · obtain rfl := Option.some.inj htaken
      exact hc.readNull
  | failed errno =>
    rw [Connection.recvTurn] at h
    split at h
    · obtain rfl := Option.some.inj h
      exact hc
    · obtain rfl := Option.some.inj h
      exact hc.readNull

/-! ## Runs -/

theorem Writer.congr (hc : Writer c) (hput : c'.socket.put = c.socket.put)
    (hwriting : c'.writing = c.writing) (hbuffers : c'.buffers = c.buffers)
    (hresults : c'.writeResults = c.writeResults) : Writer c' := by
  refine ⟨?_, ?_, ?_⟩
  · rw [hwriting, Connection.WritesWell, hresults]
    exact hc.unbroken
  · rw [hput, hbuffers]
    exact hc.prefixed
  · rw [hput, hwriting, hbuffers, Connection.WritesWell, hresults]
    exact hc.whole

theorem Reader.congr (hc : Reader c) (htaken : c'.socket.taken = c.socket.taken)
    (hreading : c'.reading = c.reading) (hlengths : c'.lengths = c.lengths)
    (hresults : c'.readResults = c.readResults) : Reader c' := by
  have hreceived : c'.received = c.received := congrArg (List.filterMap id) hresults
  refine ⟨?_, ?_, ?_, ?_⟩
  · rw [hreading, Connection.ReadsWell, hresults]
    exact hc.unbroken
  · rw [hreceived, htaken]
    exact hc.prefixed
  · rw [hreceived, hlengths]
    exact hc.lengths
  · rw [hreceived, hreading, htaken, hlengths, Connection.ReadsWell, hresults]
    exact hc.whole

/-- What the writing end does, the reading end does not see but in the socket. -/
theorem writeLoop_fields (c : Connection) (rest : List UInt8) :
    (c.writeLoop rest).socket = c.socket ∧ (c.writeLoop rest).reading = c.reading ∧
      (c.writeLoop rest).lengths = c.lengths ∧ (c.writeLoop rest).readResults = c.readResults := by
  unfold Connection.writeLoop
  split <;> exact ⟨rfl, rfl, rfl, rfl⟩

theorem readLoop_fields (c : Connection) (res : Nat) (buf : List UInt8) :
    (c.readLoop res buf).socket = c.socket ∧ (c.readLoop res buf).writing = c.writing ∧
      (c.readLoop res buf).buffers = c.buffers ∧
      (c.readLoop res buf).writeResults = c.writeResults := by
  unfold Connection.readLoop
  split <;> exact ⟨rfl, rfl, rfl, rfl⟩

theorem sendTurn_fields (h : c.sendTurn rest stat = some c') :
    c'.socket.taken = c.socket.taken ∧ c'.reading = c.reading ∧ c'.lengths = c.lengths ∧
      c'.readResults = c.readResults := by
  cases stat with
  | bytes n =>
    obtain ⟨-, hsent⟩ := Option.ite_none_right_eq_some.mp h
    obtain rfl := Option.some.inj hsent
    obtain ⟨hsocket, hrest⟩ :=
      writeLoop_fields { c with socket := c.socket.write (rest.take n) } (rest.drop n)
    exact ⟨by rw [hsocket, ByteStream.write_taken], hrest⟩
  | failed errno =>
    rw [Connection.sendTurn] at h
    split at h <;> obtain rfl := Option.some.inj h <;> exact ⟨rfl, rfl, rfl, rfl⟩

theorem recvTurn_fields (h : c.recvTurn res buf stat = some c') :
    c'.socket.put = c.socket.put ∧ c'.writing = c.writing ∧ c'.buffers = c.buffers ∧
      c'.writeResults = c.writeResults := by
  cases stat with
  | bytes n =>
    obtain ⟨-, htaken⟩ := Option.ite_none_right_eq_some.mp h
    split at htaken
    · obtain rfl := Option.some.inj htaken
      obtain ⟨hsocket, hrest⟩ := readLoop_fields { c with socket := c.socket.read n } (res - n)
        (buf ++ c.socket.inFlight.take n)
      exact ⟨by rw [hsocket, ByteStream.read_put], hrest⟩
    · obtain rfl := Option.some.inj htaken
      exact ⟨rfl, rfl, rfl, rfl⟩
  | failed errno =>
    rw [Connection.recvTurn] at h
    split at h <;> obtain rfl := Option.some.inj h <;> exact ⟨rfl, rfl, rfl, rfl⟩

/-- **Step lemma.** A careful step keeps both ends sound. -/
theorem step_sound (hwriter : Writer c) (hreader : Reader c) (hcareful : Careful c a)
    (h : step c a = some c') : Writer c' ∧ Reader c' := by
  cases a with
  | writeFully buffer =>
    obtain ⟨hidle, hcall⟩ := Option.ite_none_right_eq_some.mp h
    obtain rfl := Option.some.inj hcall
    obtain ⟨hsocket, hreading, hlengths, hresults⟩ :=
      writeLoop_fields { c with buffers := c.buffers ++ [buffer] } buffer
    refine ⟨Writer.writeLoop hcareful ?_, hreader.congr ?_ hreading hlengths hresults⟩
    · have hput := hwriter.whole hcareful
      rw [Option.isNone_iff_eq_none.mp hidle, Option.getD_none, List.append_nil] at hput
      rw [List.flatten_append, List.flatten_singleton, ← hput]
    · rw [hsocket]
  | send stat =>
    obtain ⟨rest, hwriting, hturn⟩ := Option.bind_eq_some_iff.mp h
    obtain ⟨htaken, hreading, hlengths, hresults⟩ := sendTurn_fields hturn
    exact ⟨hwriter.sendTurn hwriting hturn, hreader.congr htaken hreading hlengths hresults⟩
  | readFully len =>
    obtain ⟨hidle, hcall⟩ := Option.ite_none_right_eq_some.mp h
    obtain rfl := Option.some.inj hcall
    obtain ⟨hsocket, hwriting, hbuffers, hresults⟩ :=
      readLoop_fields { c with lengths := c.lengths ++ [len] } len []
    refine ⟨hwriter.congr ?_ hwriting hbuffers hresults, Reader.readLoop hcareful ?_ ?_⟩
    · rw [hsocket]
    · have htaken := (hreader.whole hcareful).1
      rwa [Option.isNone_iff_eq_none.mp hidle] at htaken
    · have hlengths := (hreader.whole hcareful).2
      rw [Option.isNone_iff_eq_none.mp hidle, Option.map_none, Option.toList_none,
        List.append_nil] at hlengths
      exact congrArg (· ++ [len]) hlengths
  | recv stat =>
    obtain ⟨r, hreading, hturn⟩ := Option.bind_eq_some_iff.mp h
    obtain ⟨hput, hwriting, hbuffers, hresults⟩ := recvTurn_fields hturn
    exact ⟨hwriter.congr hput hwriting hbuffers hresults, hreader.recvTurn hreading hturn⟩

theorem run_sound {actions : List Action} (hrun : run step {} actions = some c)
    (hcareful : Guarded step Careful {} actions) : Writer c ∧ Reader c := by
  have hempty : Writer ({} : Connection) ∧ Reader ({} : Connection) :=
    ⟨⟨fun h => absurd rfl h, ⟨[], rfl⟩, fun _ => rfl⟩,
      ⟨fun h => absurd rfl h, ⟨[], rfl⟩, ⟨[], rfl⟩, fun _ => ⟨rfl, rfl⟩⟩⟩
  exact run_guarded (I := fun c => Writer c ∧ Reader c)
    (fun _ _ _ hc hok hstep => step_sound hc.1 hc.2 hok hstep) hempty hcareful hrun

/-- **What is read is what was written.** Whatever parts the calls of `send` and
`recv` take, in whatever order the two ends run and however often they are
interrupted, the buffers filled by `readFully` hold the bytes of the buffers
given to `writeFully` from the first one on. If the lengths asked for are those
of the buffers, each buffer arrives as it is, and all of them have when no call
has failed and none is under way. -/
theorem readFully_writeFully {actions : List Action} (hrun : run step {} actions = some c)
    (hcareful : Guarded step Careful {} actions) :
    c.received.flatten <+: c.buffers.flatten ∧
      (c.lengths <+: c.buffers.map List.length → c.received <+: c.buffers) ∧
      (c.lengths = c.buffers.map List.length → c.reading = none → c.ReadsWell →
        c.received = c.buffers) := by
  obtain ⟨hwriter, hreader⟩ := run_sound hrun hcareful
  have hbytes : c.received.flatten <+: c.buffers.flatten :=
    (hreader.prefixed.trans c.socket.taken_prefix).trans hwriter.prefixed
  have hpieces : c.lengths <+: c.buffers.map List.length → c.received <+: c.buffers :=
    fun hlengths => ByteStream.pieces_prefix (hreader.lengths.trans hlengths) hbytes
  refine ⟨hbytes, hpieces, fun hlengths hidle hwell => ?_⟩
  have hall := (hreader.whole hwell).2
  rw [hidle, Option.map_none, Option.toList_none, List.append_nil, hlengths] at hall
  refine (hpieces (hlengths ▸ List.prefix_rfl)).eq_of_length ?_
  simpa using congrArg List.length hall

/-- A type and a sample rate, sent and received in pieces of other lengths. -/
def handshake : List Action :=
  [.readFully 4, .writeFully [1, 0, 0, 0], .send (.bytes 3), .recv (.bytes 2),
    .recv (.failed EINTR), .send (.failed EINTR), .send (.bytes 1), .writeFully [128, 187, 0, 0],
    .send (.bytes 4), .recv (.bytes 2), .readFully 4, .recv (.bytes 4)]

theorem handshake_arrives : ∃ c, run step {} handshake = some c ∧ c.reading = none ∧
    c.received = c.buffers := by
  have hend : (run step {} handshake).map (fun c =>
      (c.lengths, c.buffers.map List.length, c.reading, c.readResults.contains none)) =
        some ([4, 4], [4, 4], none, false) := rfl
  obtain ⟨c, hrun, hc⟩ := Option.map_eq_some_iff.mp hend
  obtain ⟨hlengths, hbuffers, hidle, hwell⟩ : c.lengths = [4, 4] ∧
      c.buffers.map List.length = [4, 4] ∧ c.reading = none ∧
        c.readResults.contains none = false := by simpa using hc
  refine ⟨c, hrun, hidle, ?_⟩
  refine (readFully_writeFully hrun (by decide)).2.2 (hlengths.trans hbuffers.symm) hidle ?_
  simpa [Connection.ReadsWell] using hwell

end KmreManager.Audio.SocketStream
