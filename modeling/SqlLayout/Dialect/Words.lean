/-!
All words are in upper case, which is how a dialect looks words up.
-/

namespace SqlLayout.Dialect.Words

/-- The reserved words of SQL:2003, with the statement words that the layout rules look for. -/
def reserved : List String :=
  [
    "ALL", "ALLOCATE", "ALTER", "AND", "ANY", "ARE", "ARRAY", "AS", "ASENSITIVE", "ASYMMETRIC",
    "AT", "ATOMIC", "AUTHORIZATION", "BEGIN", "BETWEEN", "BOTH", "BY", "CALL", "CALLED",
    "CARDINALITY", "CASCADED", "CASE", "CHECK", "CLOSE", "COLLATE", "COLUMN", "COMMIT",
    "CONDITION", "CONNECT", "CONSTRAINT", "CORRESPONDING", "CREATE", "CROSS", "CUBE", "CURRENT",
    "CURSOR", "CYCLE", "DAY", "DEALLOCATE", "DECLARE", "DEFAULT", "DELETE", "DEREF", "DESCRIBE",
    "DETERMINISTIC", "DISCONNECT", "DISTINCT", "DROP", "DYNAMIC", "EACH", "ELEMENT", "ELSE",
    "END", "END-EXEC", "ESCAPE", "EVERY", "EXCEPT", "EXEC", "EXECUTE", "EXISTS", "EXTERNAL",
    "FALSE", "FETCH", "FILTER", "FOR", "FOREIGN", "FREE", "FROM", "FULL", "FUNCTION", "FUSION",
    "GET", "GLOBAL", "GRANT", "GROUP", "GROUPING", "HAVING", "HOLD", "HOUR", "IDENTITY", "IF",
    "IN", "INDICATOR", "INNER", "INOUT", "INSENSITIVE", "INSERT", "INTERSECT", "INTERSECTION",
    "INTERVAL", "INTO", "IS", "JOIN", "LANGUAGE", "LARGE", "LATERAL", "LEADING", "LEFT", "LIKE",
    "LOCAL", "MATCH", "MEMBER", "MERGE", "METHOD", "MINUTE", "MODIFIES", "MODULE", "MONTH",
    "MULTISET", "NATIONAL", "NATURAL", "NEW", "NO", "NONE", "NORMALIZE", "NOT", "NULL", "OF",
    "OLD", "ON", "ONLY", "OPEN", "OR", "ORDER", "OUT", "OUTER", "OVER", "OVERLAPS", "OVERLAY",
    "PARAMETER", "PARTITION", "PRECISION", "PREPARE", "PRIMARY", "PROCEDURE", "RANGE", "READS",
    "RECURSIVE", "REF", "REFERENCES", "REFERENCING", "RELEASE", "RETURN", "RETURNS", "REVOKE",
    "RIGHT", "ROLLBACK", "ROLLUP", "ROW", "ROWS", "SAVEPOINT", "SCOPE", "SCROLL", "SEARCH",
    "SECOND", "SELECT", "SENSITIVE", "SESSION_USER", "SET", "SIMILAR", "SOME", "SPECIFIC", "SQL",
    "SQLEXCEPTION", "SQLSTATE", "SQLWARNING", "START", "STATIC", "SUBMULTISET", "SYMMETRIC",
    "SYSTEM", "SYSTEM_USER", "TABLE", "TABLESAMPLE", "THEN", "TIMEZONE_HOUR", "TIMEZONE_MINUTE",
    "TO", "TRAILING", "TRANSLATION", "TREAT", "TRIGGER", "TRUE", "UESCAPE", "UNION", "UNIQUE",
    "UNKNOWN", "UNNEST", "UPDATE", "USER", "USING", "VALUE", "VALUES", "VARYING", "WHEN",
    "WHENEVER", "WHERE", "WINDOW", "WITH", "WITHIN", "WITHOUT", "YEAR"]

/-- Widely used keywords that the standard does not reserve. -/
def common : List String :=
  [
    "ADD", "ASC", "CASCADE", "CHANGE", "COMMENT", "DATABASE", "DESC", "EXPLAIN", "IGNORE",
    "INDEX", "KEY", "LIMIT", "MODIFY", "NULLS", "OFFSET", "RENAME", "RESTRICT", "SCHEMA",
    "SEQUENCE", "SHOW", "TOP", "TRUNCATE", "USE", "VIEW"]

/-- Scalar, aggregate and window functions.  A word that is also a keyword counts as a keyword. -/
def functions : List String :=
  [
    "ABS", "AVG", "BIT_LENGTH", "CAST", "CEIL", "CEILING", "CHAR_LENGTH", "CHARACTER_LENGTH",
    "COALESCE", "CONCAT", "CONVERT", "CORR", "COUNT", "COVAR_POP", "COVAR_SAMP", "CUME_DIST",
    "CURRENT_DATE", "CURRENT_TIME", "CURRENT_TIMESTAMP", "DENSE_RANK", "EXP", "EXTRACT", "FLOOR",
    "LEFT", "LENGTH", "LN", "LOCALTIME", "LOCALTIMESTAMP", "LOWER", "MAX", "MIN", "MOD", "NULLIF",
    "OCTET_LENGTH", "PERCENT_RANK", "PERCENTILE_CONT", "PERCENTILE_DISC", "POSITION", "POWER",
    "RANK", "REGR_AVGX", "REGR_AVGY", "REGR_COUNT", "REGR_INTERCEPT", "REGR_R2", "REGR_SLOPE",
    "REGR_SXX", "REGR_SXY", "REGR_SYY", "REPLACE", "RIGHT", "ROUND", "ROW_NUMBER", "SQRT",
    "STDDEV_POP", "STDDEV_SAMP", "SUBSTRING", "SUM", "TRANSLATE", "TRIM", "UPPER", "VAR_POP",
    "VAR_SAMP", "WIDTH_BUCKET", "YEAR"]

/-- Names of column and parameter types. -/
def types : List String :=
  [
    "BIGINT", "BINARY", "BIT", "BLOB", "BOOL", "BOOLEAN", "CHAR", "CHARACTER", "CLOB", "DATE",
    "DATETIME", "DECIMAL", "DOUBLE", "FLOAT", "INT", "INTEGER", "INTERVAL", "NCHAR", "NCLOB",
    "NUMBER", "NUMERIC", "NVARCHAR", "REAL", "SMALLINT", "TIME", "TIMESTAMP", "TINYINT",
    "VARBINARY", "VARCHAR", "VARCHAR2", "XML"]

end SqlLayout.Dialect.Words
