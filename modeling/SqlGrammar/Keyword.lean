import SqlGrammar.Text.Case

/-!
# Keywords

The reserved words of the grammar. Each constructor is spelled as the keyword is written; reading a
keyword ignores the case of ASCII letters and of no others.
-/

set_option autoImplicit false

namespace SqlGrammar

/-- A reserved word. The words of joins, compound queries and common tables are reserved only so
that those constructs can be refused by name. -/
inductive Keyword where
  | SELECT | FROM | WHERE | GROUP | BY | HAVING | ORDER | LIMIT | OFFSET | DISTINCT | ALL | AS
  | INDEXED
  | JOIN | INNER | LEFT | OUTER | CROSS | NATURAL | ON | USING
  | UNION | INTERSECT | EXCEPT
  | INSERT | REPLACE | INTO | VALUES | DEFAULT | UPDATE | SET | DELETE
  | CREATE | ALTER | DROP | TABLE | INDEX | VIEW | TRIGGER | TEMP | TEMPORARY | IF | EXISTS
  | RENAME | TO | ADD | COLUMN | WITHOUT
  | CONSTRAINT | PRIMARY | KEY | UNIQUE | CHECK | FOREIGN | REFERENCES | COLLATE | AUTOINCREMENT
  | CONFLICT | ROLLBACK | ABORT | FAIL | IGNORE | CASCADE | RESTRICT | ACTION | NO | MATCH
  | DEFERRABLE | INITIALLY | DEFERRED | IMMEDIATE
  | BEFORE | AFTER | INSTEAD | OF | FOR | EACH | ROW | WHEN | BEGIN | END
  | AND | OR | NOT | IS | IN | LIKE | GLOB | REGEXP | BETWEEN | ESCAPE | ISNULL | NOTNULL | NULL
  | CASE | THEN | ELSE | CAST | CURRENT_DATE | CURRENT_TIME | CURRENT_TIMESTAMP
  | ASC | DESC
  | WITH | RECURSIVE
  deriving DecidableEq, Repr, Inhabited

namespace Keyword

/-- The canonical spelling, in upper case. -/
def text : Keyword → String
  | .SELECT => "SELECT"
  | .FROM => "FROM"
  | .WHERE => "WHERE"
  | .GROUP => "GROUP"
  | .BY => "BY"
  | .HAVING => "HAVING"
  | .ORDER => "ORDER"
  | .LIMIT => "LIMIT"
  | .OFFSET => "OFFSET"
  | .DISTINCT => "DISTINCT"
  | .ALL => "ALL"
  | .AS => "AS"
  | .INDEXED => "INDEXED"
  | .JOIN => "JOIN"
  | .INNER => "INNER"
  | .LEFT => "LEFT"
  | .OUTER => "OUTER"
  | .CROSS => "CROSS"
  | .NATURAL => "NATURAL"
  | .ON => "ON"
  | .USING => "USING"
  | .UNION => "UNION"
  | .INTERSECT => "INTERSECT"
  | .EXCEPT => "EXCEPT"
  | .INSERT => "INSERT"
  | .REPLACE => "REPLACE"
  | .INTO => "INTO"
  | .VALUES => "VALUES"
  | .DEFAULT => "DEFAULT"
  | .UPDATE => "UPDATE"
  | .SET => "SET"
  | .DELETE => "DELETE"
  | .CREATE => "CREATE"
  | .ALTER => "ALTER"
  | .DROP => "DROP"
  | .TABLE => "TABLE"
  | .INDEX => "INDEX"
  | .VIEW => "VIEW"
  | .TRIGGER => "TRIGGER"
  | .TEMP => "TEMP"
  | .TEMPORARY => "TEMPORARY"
  | .IF => "IF"
  | .EXISTS => "EXISTS"
  | .RENAME => "RENAME"
  | .TO => "TO"
  | .ADD => "ADD"
  | .COLUMN => "COLUMN"
  | .WITHOUT => "WITHOUT"
  | .CONSTRAINT => "CONSTRAINT"
  | .PRIMARY => "PRIMARY"
  | .KEY => "KEY"
  | .UNIQUE => "UNIQUE"
  | .CHECK => "CHECK"
  | .FOREIGN => "FOREIGN"
  | .REFERENCES => "REFERENCES"
  | .COLLATE => "COLLATE"
  | .AUTOINCREMENT => "AUTOINCREMENT"
  | .CONFLICT => "CONFLICT"
  | .ROLLBACK => "ROLLBACK"
  | .ABORT => "ABORT"
  | .FAIL => "FAIL"
  | .IGNORE => "IGNORE"
  | .CASCADE => "CASCADE"
  | .RESTRICT => "RESTRICT"
  | .ACTION => "ACTION"
  | .NO => "NO"
  | .MATCH => "MATCH"
  | .DEFERRABLE => "DEFERRABLE"
  | .INITIALLY => "INITIALLY"
  | .DEFERRED => "DEFERRED"
  | .IMMEDIATE => "IMMEDIATE"
  | .BEFORE => "BEFORE"
  | .AFTER => "AFTER"
  | .INSTEAD => "INSTEAD"
  | .OF => "OF"
  | .FOR => "FOR"
  | .EACH => "EACH"
  | .ROW => "ROW"
  | .WHEN => "WHEN"
  | .BEGIN => "BEGIN"
  | .END => "END"
  | .AND => "AND"
  | .OR => "OR"
  | .NOT => "NOT"
  | .IS => "IS"
  | .IN => "IN"
  | .LIKE => "LIKE"
  | .GLOB => "GLOB"
  | .REGEXP => "REGEXP"
  | .BETWEEN => "BETWEEN"
  | .ESCAPE => "ESCAPE"
  | .ISNULL => "ISNULL"
  | .NOTNULL => "NOTNULL"
  | .NULL => "NULL"
  | .CASE => "CASE"
  | .THEN => "THEN"
  | .ELSE => "ELSE"
  | .CAST => "CAST"
  | .CURRENT_DATE => "CURRENT_DATE"
  | .CURRENT_TIME => "CURRENT_TIME"
  | .CURRENT_TIMESTAMP => "CURRENT_TIMESTAMP"
  | .ASC => "ASC"
  | .DESC => "DESC"
  | .WITH => "WITH"
  | .RECURSIVE => "RECURSIVE"

/-- All keywords. -/
def all : List Keyword :=
  [.SELECT, .FROM, .WHERE, .GROUP, .BY, .HAVING, .ORDER, .LIMIT, .OFFSET, .DISTINCT, .ALL, .AS,
   .INDEXED,
   .JOIN, .INNER, .LEFT, .OUTER, .CROSS, .NATURAL, .ON, .USING,
   .UNION, .INTERSECT, .EXCEPT,
   .INSERT, .REPLACE, .INTO, .VALUES, .DEFAULT, .UPDATE, .SET, .DELETE,
   .CREATE, .ALTER, .DROP, .TABLE, .INDEX, .VIEW, .TRIGGER, .TEMP, .TEMPORARY, .IF, .EXISTS,
   .RENAME, .TO, .ADD, .COLUMN, .WITHOUT,
   .CONSTRAINT, .PRIMARY, .KEY, .UNIQUE, .CHECK, .FOREIGN, .REFERENCES, .COLLATE, .AUTOINCREMENT,
   .CONFLICT, .ROLLBACK, .ABORT, .FAIL, .IGNORE, .CASCADE, .RESTRICT, .ACTION, .NO, .MATCH,
   .DEFERRABLE, .INITIALLY, .DEFERRED, .IMMEDIATE,
   .BEFORE, .AFTER, .INSTEAD, .OF, .FOR, .EACH, .ROW, .WHEN, .BEGIN, .END,
   .AND, .OR, .NOT, .IS, .IN, .LIKE, .GLOB, .REGEXP, .BETWEEN, .ESCAPE, .ISNULL, .NOTNULL, .NULL,
   .CASE, .THEN, .ELSE, .CAST, .CURRENT_DATE, .CURRENT_TIME, .CURRENT_TIMESTAMP,
   .ASC, .DESC,
   .WITH, .RECURSIVE]

/-- No keyword is missing from `all`. -/
theorem mem_all (k : Keyword) : k ∈ all := by
  cases k <;> decide

/-- The keyword that a word spells, whatever the case of its ASCII letters. -/
def ofText? (word : String) : Option Keyword :=
  let upper := Text.upper word
  all.find? fun k => k.text == upper

/-- Whether the keyword is also the name of a function. -/
def namesFunction : Keyword → Bool
  | REPLACE | LIKE | GLOB | MATCH | REGEXP => true
  | _ => false

end Keyword

end SqlGrammar
