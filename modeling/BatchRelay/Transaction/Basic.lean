/-!
# Signed transactions

The payload that a client signs and hands in.  It is passed on to the network
as it came, so numbers keep the widths that the network gives them and all
other fields stay text.
-/

namespace BatchRelay

/-- A signed transaction payload. -/
structure Transaction where
  nonce : UInt64
  /-- The amount, as a decimal numeral. -/
  value : String
  receiver : String
  sender : String
  gasPrice : UInt64
  gasLimit : UInt64
  /-- Call data in base 64. -/
  data : Option String
  chainId : String
  version : UInt32
  options : Option UInt32
  /-- The sender's signature in hexadecimal. -/
  signature : String
  guardian : Option String
  /-- The guardian's signature in hexadecimal. -/
  guardianSignature : Option String
  deriving DecidableEq

end BatchRelay
