import NearCache.Table
/-!
# Members of a cluster

A member is one node of the cluster with its name, its role and its attributes.  A member that
enrols always carries two attributes of its own, its name and whether it is a client, and whatever
the user put under those keys gives way to them (`get?_enrolled_name`, `get?_enrolled_client`).
-/

namespace NearCache

/-- Whether a member stores data or only uses it. -/
inductive Role where
  | server
  | client
  deriving DecidableEq, Repr, Inhabited

namespace Role

/-- The name of a role. -/
def name : Role → String
  | server => "server"
  | client => "client"

/-- Whether the role is that of a client. -/
def isClient : Role → Bool
  | server => false
  | client => true

end Role

/-- The value of an attribute.  Values of different kinds are never equal. -/
inductive AttrValue where
  | bool (b : Bool)
  | int (n : Int64)
  | text (s : String)
  deriving DecidableEq, Repr, Inhabited

namespace AttrValue

/-- The value as it is shown, without a sign of its kind. -/
def display : AttrValue → String
  | bool b => if b then "true" else "false"
  | int n => toString n.toInt
  | text s => s

/-- The text of a text value. -/
def text? : AttrValue → Option String
  | text s => some s
  | _ => none

/-- The name of the kind of a value. -/
def kind : AttrValue → String
  | bool _ => "bool"
  | int _ => "int"
  | text _ => "str"

end AttrValue

/-- Attributes by key. -/
abbrev Attributes := Table String AttrValue

/-- Members are told apart by a number that no two of them share. -/
abbrev MemberId := Nat

/-- The form in which a member's number is shown: the number itself is of no use to a reader. -/
def MemberId.display (_ : MemberId) : String := "<id>"

/-- A node of the cluster. -/
structure Member where
  id : MemberId
  name : String
  role : Role
  attributes : Attributes
  deriving DecidableEq

namespace Member

/-- The attribute that holds a member's name. -/
def nameKey : String := "platcache.node.name"

/-- The attribute that says whether a member is a client. -/
def clientKey : String := "platcache.node.client"

/-- A member as it enrols: the attributes of the user under the two of its own. -/
def enrolled (id : MemberId) (name : String) (role : Role) (user : Attributes) : Member where
  id
  name
  role
  attributes := (user.insert nameKey (.text name)).insert clientKey (.bool role.isClient)

/-- Whether the member is a client. -/
def isClient (m : Member) : Bool := m.role.isClient

/-- The value of one attribute. -/
def attribute? (m : Member) (key : String) : Option AttrValue := m.attributes.get? key

/-- The name that the member's attributes give it, if they give it one. -/
def instanceName? (m : Member) : Option String := (m.attribute? nameKey).bind AttrValue.text?

/-- One line about the member. -/
def display (m : Member) : String :=
  m.name ++ " (" ++ m.role.name ++ ", " ++ m.id.display ++ ")"

@[simp] theorem get?_enrolled_name (id : MemberId) (name : String) (role : Role)
    (user : Attributes) : (enrolled id name role user).attribute? nameKey = some (.text name) := by
  have : nameKey ≠ clientKey := by decide
  simp [enrolled, attribute?, Table.get?_insert, this]

@[simp] theorem get?_enrolled_client (id : MemberId) (name : String) (role : Role)
    (user : Attributes) :
    (enrolled id name role user).attribute? clientKey = some (.bool role.isClient) := by
  simp [enrolled, attribute?]

/-- All other attributes are the user's. -/
theorem get?_enrolled_user (id : MemberId) (name : String) (role : Role) (user : Attributes)
    {key : String} (hn : key ≠ nameKey) (hc : key ≠ clientKey) :
    (enrolled id name role user).attribute? key = user.get? key := by
  simp [enrolled, attribute?, Table.get?_insert, hn, hc]

@[simp] theorem instanceName?_enrolled (id : MemberId) (name : String) (role : Role)
    (user : Attributes) : (enrolled id name role user).instanceName? = some name := by
  simp [instanceName?, AttrValue.text?]

end Member

end NearCache
