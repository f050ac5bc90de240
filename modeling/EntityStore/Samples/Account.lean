import EntityStore.Entity
import EntityStore.Samples.Scalars
import EntityStore.Text.Blank
import EntityStore.Text.Quoted
import EntityStore.Text.Record
/-!
# Accounts

A sample entity type whose identifier is a single text.  The owner's name is trimmed whenever an account is saved.
-/
namespace EntityStore

structure AccountId where
  name : String
deriving DecidableEq

def AccountId.text (id : AccountId) : String := Record.wrapped "AccountId" (Quoted.encode id.name)

structure Account where
  id : AccountId
  owner : String
  /-- In 64 bits, with a sign. -/
  balance : Int
deriving DecidableEq

namespace Account

/-- The account with an amount added to its balance, which wraps around. -/
def deposit (a : Account) (amount : Int) : Account := { a with balance := (a.balance + amount).bmod 18446744073709551616 }

def text (a : Account) : String :=
  Record.text "Account" [("id", a.id.text), ("owner", Quoted.encode a.owner), ("balance", toString a.balance)]

/-- The entity type of accounts; `home` is the path of the identifier type. -/
def type (home : String) : EntityType Sample.scalars where
  Id := AccountId
  Entity := Account
  idDecEq := inferInstance
  typeName := home ++ "::AccountId"
  table := "Account"
  shape := .converted .string
  node id := .value (.string id.name)
  idOf := Account.id
  onSave a := { a with owner := Blank.trim a.owner }
  idText := AccountId.text
  entityText := text

end Account

end EntityStore
