import ChatCommands.Program
import ChatCommands.Setting.Use

/-!
# Commands from options

A command is registered under one name or a list of names, the first of which is its own, with
options for everything else. The options have to be those that commands have; their values are
taken as they are, except that the required actions have to be several.

## Main definitions

* `readNames`: the names of a registration
* `roleList`: the roles of a role option
* `CommandInfo.ofOptions`: the command that a registration describes
-/

namespace ChatCommands

namespace CommandInfo

/-- The names of a registration. -/
def readNames : Setting → Except Fault (List Setting)
  | .scalar (.text s) => .ok [.text s]
  | v => v.items

/-- The role that a role option or one item of it stands for. -/
def roleId : Setting → Id
  | .table fields => (fields.lookup "role").getD .null
  | v => v

/-- The roles of a role option: none, one role, or a list of roles. -/
def roleList : Setting → List Id
  | .scalar .null => []
  | .list items => items.map roleId
  | v => [roleId v]

/-- What options have no name for, since it is given apart from them. -/
def reserved : List String := ["self", "names", "handler"]

/-- An option that cannot be given. -/
def badOption (name : String) : Fault :=
  .wrongType ("got an unexpected keyword argument '" ++ name ++ "'")

/-- The command with one more option. -/
def withOption (c : CommandInfo) (option : String × Setting) : Except Fault CommandInfo :=
  let v := option.2
  match option.1 with
  | "description" => .ok { c with description := v }
  | "usage" => .ok { c with usage := v }
  | "parameters" => .ok { c with parameters := v }
  | "permission_level" => .ok { c with permissionLevel := v }
  | "permission_message" => .ok { c with permissionMessage := v }
  | "required_permissions" => v.items.map fun actions => { c with requiredPermissions := actions }
  | "required_roles" => .ok { c with requiredRoles := roleList v }
  | "chain_usable" => .ok { c with chainUsable := v }
  | "help_available" => .ok { c with helpAvailable := v }
  | "min_args" => .ok { c with minArgs := v }
  | "max_args" => .ok { c with maxArgs := v }
  | name => .error (badOption name)

/-- The command that a registration describes. -/
def ofOptions (names : Setting) (options : Fields) : Except Fault CommandInfo := do
  if let some o := options.find? fun o => o.1 ∈ reserved then throw (badOption o.1)
  match ← readNames names with
  | [] => throw (.badValue "A command needs at least one name")
  | name :: aliases => options.foldlM withOption { name := name, aliases := aliases }

end CommandInfo

end ChatCommands
