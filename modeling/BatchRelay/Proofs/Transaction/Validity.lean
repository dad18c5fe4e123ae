import BatchRelay.Engine.Validation

/-!
# Valid transactions

A transaction that passes the checks of its text is kept under its own hash.
Transfers of nothing serve as samples.
-/

namespace BatchRelay

/-- A transaction of a sender that passes all checks, under its own hash. -/
structure HashedTransaction.Valid (transaction : HashedTransaction)
    (address : String) : Prop where
  sender : transaction.payload.sender = address
  passes : transaction.payload.check = .ok ()
  hashes : transaction.payload.hash = .ok transaction.hash

namespace Sample

def alice : String :=
  "erd1qyu5wthldzr8wx5c9ucg8kjagg0jfs53s8nr3zpz3hypefsdd8ssycr6th"

def bob : String :=
  "erd1spyavw0956vq68xj8y4tenjpq2wd5a9p2c6j8gsz7ztyrnpxrruqzu66jx"

/-- A transfer of nothing from `alice` to `bob`. -/
def transfer (nonce : UInt64) (hash : String) : HashedTransaction where
  payload :=
    { nonce := nonce
      value := "0"
      receiver := bob
      sender := alice
      gasPrice := 1000000000
      gasLimit := 50000
      data := none
      chainId := "D"
      version := 1
      options := none
      signature := "ab"
      guardian := none
      guardianSignature := none }
  hash := hash

/-- A transfer is valid when it is kept under its own hash. -/
theorem transfer_valid {nonce : UInt64} {hash : String}
    (hashes : (transfer nonce hash).payload.hash.toOption = some hash) :
    (transfer nonce hash).Valid alice := by
  have isHash : (transfer nonce hash).payload.hash = .ok hash := by
    cases result : (transfer nonce hash).payload.hash with
    | error error =>
        rw [result] at hashes
        cases hashes
    | ok found =>
        rw [result] at hashes
        exact congrArg Except.ok (Option.some.inj hashes)
  refine ⟨rfl, ?_, isHash⟩
  have faultless : (transfer nonce hash).payload.fault? = none := by
    simp only [Transaction.fault?, isHash]
    rfl
  simp only [Transaction.check, faultless]

def early : HashedTransaction :=
  transfer 1 "74f9b740fce4101a449a8c7d94cb06319bf9b0307d572fc170d340c0eee74b7d"

def refused : HashedTransaction :=
  transfer 2 "c916ea328e4a8530630fcdb277202e17a34ed1866557cf90c6558008495754dc"

def first : HashedTransaction :=
  transfer 3 "33a5993683f4757e645a91b7a0e2039d3d9c24974f72388721ff14e566b6af7b"

def third : HashedTransaction :=
  transfer 4 "bb1e78fad59561c1744fb8f7cc5b9ff15cabac1521a8832f8aed91d2c828054b"

theorem early_valid : early.Valid alice :=
  transfer_valid (by decide +kernel)

theorem refused_valid : refused.Valid alice :=
  transfer_valid (by decide +kernel)

theorem first_valid : first.Valid alice :=
  transfer_valid (by decide +kernel)

theorem third_valid : third.Valid alice :=
  transfer_valid (by decide +kernel)

end Sample

end BatchRelay
