import ChatCommands.Chat

/-!
# Requirements

A command may require that its author may perform actions in the channel and holds roles. Actions
are asked of the network one after another; the first denial, or the first refusal to answer, ends
the questions. Where nothing is required, nothing is asked, not even whether there is an author.

## Main definitions

* `ActionCheck`, `checkActions`: the questions asked, and the outcome
* `holdsRoles`: the roles held
-/

namespace ChatCommands

/-- The actions asked about, in order, and the outcome. -/
structure ActionCheck where
  asked : List Setting
  outcome : Except Fault Bool

/-- Asks whether a user may perform every one of the actions. -/
def checkActions (t : Transport) (u : Option User) (channel : Id) : List Setting → ActionCheck
  | [] => ⟨[], .ok true⟩
  | a :: as =>
    match u with
    | none => ⟨[], .error (.lacks .null "id")⟩
    | some v =>
      match t.mayPerform v a channel with
      | .ok true =>
        let rest := checkActions t u channel as
        ⟨a :: rest.asked, rest.outcome⟩
      | .ok false => ⟨[a], .ok false⟩
      | .error f => ⟨[a], .error f⟩

/-- Whether a user holds a role. -/
def User.holds (u : User) (role : Id) : Bool := u.roles.any role.same

/-- Whether a user holds every one of the roles. -/
def holdsRoles (u : Option User) (roles : List Id) : Except Fault Bool :=
  match roles, u with
  | [], _ => .ok true
  | _, none => .error (.lacks .null "role_ids")
  | roles, some u => .ok (roles.all u.holds)

end ChatCommands
