import TypedMirror.Text

/-!
# The catalog

The host decides which of its key/value tables may be mirrored, and what their columns are called.
-/

namespace TypedMirror

/-- The columns of a metadata table, which is named without the host's own leading part. -/
structure MetaTable where
  name : Text
  idColumn : Text
  objectColumn : Text
  keyColumn : Text := "meta_key".toList
  valueColumn : Text := "meta_value".toList
deriving DecidableEq, Repr

/-- The tables that may be mirrored; `lead` stands in front of the name of each. -/
structure Catalog where
  lead : Text
  tables : List MetaTable
deriving DecidableEq, Repr

namespace Catalog

/-- The four tables of a content host, under `wp_`. -/
def standard : Catalog where
  lead := "wp_".toList
  tables :=
    let table (name id object : String) : MetaTable :=
      { name := name.toList, idColumn := id.toList, objectColumn := object.toList }
    [table "postmeta" "meta_id" "post_id", table "termmeta" "meta_id" "term_id",
      table "commentmeta" "meta_id" "comment_id", table "usermeta" "umeta_id" "user_id"]

/-- The name of a table as the host's store knows it. -/
def fullName (c : Catalog) (t : MetaTable) : Text := c.lead ++ t.name

/-- The first table with this full name. -/
def get? (c : Catalog) (name : Text) : Option MetaTable :=
  (Text.after? c.lead name).bind fun base => c.tables.find? (·.name == base)

/-- The full names of all tables. -/
def tableNames (c : Catalog) : List Text := c.tables.map c.fullName

theorem fullName_of_get? {c : Catalog} {name : Text} {t : MetaTable} (h : c.get? name = some t) :
    c.fullName t = name := by
  obtain ⟨base, hb, ht⟩ := Option.bind_eq_some_iff.1 h
  have hn : t.name = base := by simpa using List.find?_some ht
  rw [fullName, hn]
  exact (Text.after?_eq_some.1 hb).symm

theorem mem_of_get? {c : Catalog} {name : Text} {t : MetaTable} (h : c.get? name = some t) :
    t ∈ c.tables := by
  obtain ⟨base, -, ht⟩ := Option.bind_eq_some_iff.1 h
  exact List.mem_of_find?_eq_some ht

end Catalog

end TypedMirror
