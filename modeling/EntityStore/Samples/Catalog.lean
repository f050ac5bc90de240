import EntityStore.Samples.Account
import EntityStore.Samples.Host
import EntityStore.Samples.Irregular
import EntityStore.Samples.Item
import EntityStore.Store.TableOp
/-!
# The catalogue of sample entity types

One constructor for each sample entity type, so that one repository can hold entities of all of them, and the
statements that only one of them has.
-/
namespace EntityStore

/-- The kinds of sample entities. -/
inductive Sample where
  | item
  | account
  | host
  | loose
  | bad
deriving DecidableEq

namespace Sample

def all : List Sample := [.item, .account, .host, .loose, .bad]

def name : Sample → String
  | .item => "item"
  | .account => "account"
  | .host => "host"
  | .loose => "loose"
  | .bad => "bad"

/-- The entity types; `home` is the path of the identifier types. -/
@[reducible] def catalog (home : String) : Sample → EntityType Sample.scalars
  | .item => Item.type home
  | .account => Account.type home
  | .host => Host.type home
  | .loose => Loose.type home
  | .bad => BadEntity.type home

end Sample

/-- Adds an amount to the balance of an account, which has to exist. -/
def Account.depositInto (home : String) (id : AccountId) (amount : Int) : Work (Sample.catalog home) Account :=
  .statement (.find .account id) fun
    | .error e => .done (.error e)
    | .ok none => .done (.error (.invalidArgument "missing"))
    | .ok (some a) => .ofOp (.save .account (a.deposit amount)) (fun saved => saved)

end EntityStore
