/-
**The two buffers of a JSON-RPC request.**

`brpc_json_request` of libbacteria/json_rpc.c, `lua_rpc_requst` of libbacteria/lua/libjson.c and
`cryptocoins::req` of src/protocolcxx/cryptocurrency.cpp print the credentials and the address of the
node into arrays on their stack.

* `requestBuffers` — the two arrays of a coin's request; the three functions are instances of it.
* `url_inBounds` — the address always fits.
* `userpwd_overruns` — the credentials never do: behind the NUL of the format comes that of `sprintf`.
* `RequestsFit` — that both fit in all three; `not_requestsFit` — that they do for no strings and
  port.
-/

import Bacteria.Coins.Table
import Bacteria.Lib.Sprintf

namespace Bacteria.Coins

open Clib

/-- `userpwd` and `url` after the two calls of `sprintf`. -/
structure Buffers where
  userpwd : Block
  url : Block

/-- `char userpwd[…]` and `sprintf(userpwd, "%s:%s%c", …)`. -/
def userpwdOf (rpcuser rpcpassword : CString) : Option Block :=
  (Block.malloc (rpcuser.strlen + rpcpassword.strlen + 2)).sprintf (ascii "%s:%s%c")
    [.string rpcuser, .string rpcpassword, .char 0]

/-- `char url[…]` and `sprintf(url, "http://%s:%d%c", …)`. -/
def urlOf (rpchost : CString) (rpcport : UInt16) : Option Block :=
  (Block.malloc (rpchost.strlen + sizeofLiteral (ascii "http://") + sizeofLiteral (ascii "65535") +
    2)).sprintf (ascii "http://%s:%d%c") [.string rpchost, .int rpcport.toNat, .char 0]

/-- The part all three functions begin with; `none` for a null host, which `strlen` is not made
for. -/
def requestBuffers (c : Cryptocoin) : Option Buffers :=
  c.rpchost.bind fun rpchost => (userpwdOf c.rpcuser c.rpcpassword).bind fun userpwd =>
    (urlOf rpchost c.rpcport).map fun url => ⟨userpwd, url⟩

/-- `brpc_json_request`. -/
def brpcJsonRequest (c : Cryptocoin) : Option Buffers := requestBuffers c

/-- `cryptocoins::req`. -/
def cryptocoinsReq (a : Cryptocoin) : Option Buffers := requestBuffers a

/-- `lua_rpc_requst`: the fields of its table, the port as an `uint`. -/
def luaRpcRequst (rpcIstestnet : Bool) (rpcUser rpcPassword rpcHost rpcName : CString)
    (rpcPort : UInt32) : Option Buffers :=
  requestBuffers ⟨rpcIstestnet, rpcUser, rpcPassword, rpcPort.toUInt16, some rpcHost, rpcName⟩

/-- The call has both buffers, and wrote inside them. -/
def Fits (buffers : Option Buffers) : Prop :=
  ∃ written, buffers = some written ∧ written.userpwd.InBounds ∧ written.url.InBounds

/-- **The buffers of all three functions fit** what is printed into them. -/
structure RequestsFit (testnet : Bool) (user password host name : CString) (port : UInt16) :
    Prop where
  json : Fits (brpcJsonRequest ⟨testnet, user, password, port, some host, name⟩)
  lua : Fits (luaRpcRequst testnet user password host name port.toUInt32)
  cxx : Fits (cryptocoinsReq ⟨testnet, user, password, port, some host, name⟩)

/-! ### The texts -/

/-- `user:password` and the NUL of `%c`. -/
theorem format_userpwd (user password : CString) :
    format (ascii "%s:%s%c") [.string user, .string password, .char 0] =
      some (user.bytes ++ charByte ':' :: (password.bytes ++ [0])) := by
  have shape : ascii "%s:%s%c" = [37, 115, 58, 37, 115, 37, 99] := by decide
  rw [shape]
  rfl

theorem format_url (host : CString) (port : UInt16) :
    format (ascii "http://%s:%d%c") [.string host, .int port.toNat, .char 0] =
      some (ascii "http://" ++ (host.bytes ++ charByte ':' :: (decimal port.toNat ++ [0]))) := by
  have shape : ascii "http://%s:%d%c" =
      [104, 116, 116, 112, 58, 47, 47, 37, 115, 58, 37, 100, 37, 99] := by decide
  have digits : decimalInt (port.toNat : Int) = decimal port.toNat := by
    rw [decimalInt, if_neg (by omega), Int.natAbs_natCast]
  rw [shape, ← digits]
  rfl

/-- A port has at most five digits. -/
theorem port_digits (port : UInt16) : (decimal port.toNat).length ≤ 5 :=
  decimal_length_le (by decide) (lt_trans port.toNat_lt (by decide))

/-! ### The buffers -/

/-- **The address fits**, whatever the host and the port. -/
theorem url_inBounds (host : CString) (port : UInt16) :
    ∃ url, urlOf host port = some url ∧ url.InBounds := by
  have digits := port_digits port
  have made := format_url host port
  refine ⟨_, by rw [urlOf, Block.sprintf, made, Option.map_some], ?_⟩
  have size : sizeofLiteral (ascii "http://") + sizeofLiteral (ascii "65535") = 14 := by decide
  have start : (ascii "http://").length = 7 := by decide
  rw [sprintf_inBounds made (by rw [Block.sprintf, made, Option.map_some])]
  simp only [List.length_append, List.length_cons, List.length_nil, CString.strlen, start]
  omega

/-- **What is written to `userpwd`**: two strings, a colon and two NULs, into one byte less. -/
theorem userpwd_writes (user password : CString) :
    ∃ userpwd, userpwdOf user password = some userpwd ∧ userpwd.writes =
      [⟨0, user.strlen + password.strlen + 3, user.strlen + password.strlen + 2⟩] := by
  refine ⟨_, by rw [userpwdOf, Block.sprintf, format_userpwd, Option.map_some], ?_⟩
  simp only [Block.write, Block.malloc, List.nil_append, List.cons.injEq, Write.mk.injEq, true_and,
    and_true, List.length_append, List.length_cons, List.length_nil, CString.strlen]
  omega

/-- **The credentials do not fit.** -/
theorem userpwd_overruns (user password : CString) :
    ∃ userpwd, userpwdOf user password = some userpwd ∧ ¬ userpwd.InBounds := by
  obtain ⟨userpwd, credentials, writes⟩ := userpwd_writes user password
  refine ⟨userpwd, credentials, fun inside => ?_⟩
  have fits := inside _ (by rw [writes]; exact List.mem_singleton_self _)
  simp only at fits
  omega

/-- A request of a coin with a host. -/
theorem not_fits_requestBuffers (c : Cryptocoin) {host : CString} (known : c.rpchost = some host) :
    ¬ Fits (requestBuffers c) := by
  obtain ⟨userpwd, credentials, overrun⟩ := userpwd_overruns c.rpcuser c.rpcpassword
  obtain ⟨url, address, _⟩ := url_inBounds host c.rpcport
  rintro ⟨written, buffers, inside, _⟩
  rw [requestBuffers, known, Option.bind_some, credentials, Option.bind_some, address,
    Option.map_some] at buffers
  rw [← Option.some.inj buffers] at inside
  exact overrun inside

/-- **No request fits its buffers.** -/
theorem not_requestsFit (testnet : Bool) (user password host name : CString) (port : UInt16) :
    ¬ RequestsFit testnet user password host name port :=
  fun fits => not_fits_requestBuffers ⟨testnet, user, password, port, some host, name⟩ rfl fits.json

/-- **The defaults of the ini file**: `user:nopass` and two NULs are thirteen bytes, written to
twelve. -/
theorem defaults_overrun :
    (∃ userpwd, userpwdOf ⟨ascii "user", by decide⟩ ⟨ascii "nopass", by decide⟩ = some userpwd ∧
      userpwd.writes = [⟨0, 13, 12⟩]) ∧
    ¬ RequestsFit false ⟨ascii "user", by decide⟩ ⟨ascii "nopass", by decide⟩
      ⟨ascii "localhost", by decide⟩ btc 8332 := by
  refine ⟨userpwd_writes ⟨ascii "user", by decide⟩ ⟨ascii "nopass", by decide⟩, fun fits => ?_⟩
  exact not_fits_requestBuffers _ rfl fits.json

end Bacteria.Coins
