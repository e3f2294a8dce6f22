/-
**The arrays of the UDP branch.**

* `bufUdp` — the array a datagram is received into, with the terminator that is stored behind it;
  `tmp` is the array of the echo reply.
* `bufUdp_inBounds_iff`, `tmp_inBounds_iff` — when the writes to either stay inside it.
* `udpWrites_inBounds_iff` — both, for any datagram the branch can receive.
-/

import Bacteria.Client.PeerInfo
import Bacteria.Serv.Thread

namespace Bacteria.Serv

open Clib

/-- `char buf_udp[SBUF]` after `recvfrom` and `buf_udp[nbytes] = 0`. -/
def bufUdp (d : Datagram) : Block := ((Block.malloc sbuf).write 0 d.text).write d.text.length [0]

/-- Every byte the branch writes for a datagram lies inside its array. -/
def UdpWritesInBounds (d : Datagram) : Prop := (bufUdp d).InBounds ∧ (tmp d).InBounds

/-- The lengths of the address text, the port text and the text `%s` reads. -/
def echoLength (d : Datagram) : Nat :=
  (inetNtoa d.sender.sAddr).length + (decimal (htons d.sender.sinPort).toNat).length +
    (cstr d.text).strlen

theorem echoText_length (d : Datagram) : (echoText d).length = echoLength d + 6 := by
  have opening : (ascii "[").length = 1 := rfl
  have closing : (ascii "]: ").length = 3 := rfl
  have newline : (ascii "\n").length = 1 := rfl
  rw [echoText, peerText, echoLength, CString.strlen]
  simp only [List.length_append, List.length_cons, opening, closing, newline]
  omega

theorem bufUdp_inBounds_iff (d : Datagram) : (bufUdp d).InBounds ↔ d.text.length ≤ 1023 := by
  rw [bufUdp, Block.inBounds_write, Block.inBounds_write, Block.write_size, Block.malloc_size, sbuf,
    List.length_singleton]
  have empty := Block.inBounds_malloc 1024
  exact ⟨fun inside => by omega, fun short => ⟨⟨empty, by omega⟩, by omega⟩⟩

theorem tmp_inBounds_iff (d : Datagram) : (tmp d).InBounds ↔ echoLength d ≤ 248 := by
  have nuls : ([0, 0] : Bytes).length = 2 := rfl
  rw [tmp, Block.inBounds_write, Block.malloc_size, List.length_append, echoText_length, nuls]
  have empty := Block.inBounds_malloc 256
  exact ⟨fun inside => by omega, fun short => ⟨empty, by omega⟩⟩

/-- **The writes of the UDP branch stay inside their arrays** exactly for datagrams that leave room for
a terminator and whose echo reply fits `tmp`. -/
theorem udpWrites_inBounds_iff (d : Datagram) :
    UdpWritesInBounds d ↔
      d.text.length ≤ 1023 ∧
        (inetNtoa d.sender.sAddr).length + (decimal (htons d.sender.sinPort).toNat).length +
          (cstr d.text).strlen ≤ 248 :=
  and_congr (bufUdp_inBounds_iff d) (tmp_inBounds_iff d)

/-- As many letters as the array has bytes, sent from 127.0.0.1. -/
def fullDatagram : Datagram where
  sender := ⟨2, htons 8080, 0x0100007F⟩
  text := List.replicate 1024 97
  timenow := 0
  pingnow := 0

/-- **A full datagram leaves no room for the terminator, and its reply none in `tmp`.** -/
theorem fullDatagram_overflows :
    fullDatagram.text.length = 1024 ∧ ¬ (bufUdp fullDatagram).InBounds ∧
      ¬ (tmp fullDatagram).InBounds ∧ ¬ UdpWritesInBounds fullDatagram := by
  have size : fullDatagram.text.length = 1024 := List.length_replicate
  have noTerminator : ¬ (bufUdp fullDatagram).InBounds := by
    rw [bufUdp_inBounds_iff, size]
    decide
  have clean : (0 : Byte) ∉ fullDatagram.text := fun member =>
    absurd (List.eq_of_mem_replicate member) (by decide)
  have whole : (cstr fullDatagram.text).strlen = 1024 := by
    rw [CString.strlen, (cstr_eq_iff _).mpr clean, size]
  have noReply : ¬ (tmp fullDatagram).InBounds := by
    rw [tmp_inBounds_iff, echoLength, whole]
    omega
  exact ⟨size, noTerminator, noReply, fun inside => noTerminator inside.1⟩

end Bacteria.Serv
