import CheckedThrows.Source

/-!
# Bundled libraries

The parts of the standard libraries that programs refer to, and the library
with the metadata class `Throws`.  They are read like any other source text;
a given source with the uri of one of them takes its place.
-/

namespace CheckedThrows

/-- A source text with a line feed at the end of every line. -/
def Source.ofLines (uri : String) (lines : List String) : Source :=
  ⟨uri, String.join (lines.map fun line => line ++ "\n")⟩

namespace Bundled

def core : Source := .ofLines "dart:core" [
  "// dart:core as seen by the check.",
  "//",
  "// Only declarations the analysis needs to resolve user code are listed.",
  "// Bodies are external; nothing here is ever executed.",
  "",
  "class Object \x7b",
  "  const Object();",
  "  external bool operator ==(Object other);",
  "  external int get hashCode;",
  "  external String toString();",
  "\x7d",
  "",
  "class Null \x7b\x7d",
  "",
  "class bool \x7b\x7d",
  "",
  "abstract class num \x7b",
  "  external num operator +(num other);",
  "  external num operator -(num other);",
  "  external num operator *(num other);",
  "  external double operator /(num other);",
  "  external num operator %(num other);",
  "  external int operator ~/(num other);",
  "  external num operator -();",
  "  external bool operator <(num other);",
  "  external bool operator >(num other);",
  "  external bool operator <=(num other);",
  "  external bool operator >=(num other);",
  "  external int toInt();",
  "  external double toDouble();",
  "  external num abs();",
  "\x7d",
  "",
  "class int extends num \x7b",
  "  external static int parse(String source);",
  "  external int operator &(int other);",
  "  external int operator |(int other);",
  "  external int operator ^(int other);",
  "  external int operator ~();",
  "  external int operator <<(int shiftAmount);",
  "  external int operator >>(int shiftAmount);",
  "\x7d",
  "",
  "class double extends num \x7b",
  "  external static double parse(String source);",
  "\x7d",
  "",
  "class String \x7b",
  "  external String operator +(String other);",
  "  external String operator [](int index);",
  "  external int get length;",
  "  external bool get isEmpty;",
  "  external bool contains(String other);",
  "  external String substring(int start, int end);",
  "  external String trim();",
  "\x7d",
  "",
  "class Type \x7b\x7d",
  "",
  "class StackTrace \x7b\x7d",
  "",
  "abstract class Exception \x7b\x7d",
  "",
  "class Error \x7b",
  "  Error();",
  "  external StackTrace get stackTrace;",
  "\x7d",
  "",
  "class FormatException implements Exception \x7b",
  "  final String message;",
  "  const FormatException(this.message);",
  "\x7d",
  "",
  "class StateError extends Error \x7b",
  "  final String message;",
  "  StateError(this.message);",
  "\x7d",
  "",
  "class ArgumentError extends Error \x7b",
  "  final String message;",
  "  ArgumentError(this.message);",
  "\x7d",
  "",
  "class RangeError extends ArgumentError \x7b",
  "  RangeError(String message);",
  "\x7d",
  "",
  "class UnsupportedError extends Error \x7b",
  "  final String message;",
  "  UnsupportedError(this.message);",
  "\x7d",
  "",
  "class UnimplementedError extends Error \x7b",
  "  final String message;",
  "  UnimplementedError(this.message);",
  "\x7d",
  "",
  "class TypeError extends Error \x7b\x7d",
  "",
  "abstract class Iterable \x7b",
  "  external dynamic get first;",
  "  external dynamic get last;",
  "  external dynamic get single;",
  "  external int get length;",
  "  external bool get isEmpty;",
  "  external dynamic reduce(dynamic Function(dynamic, dynamic) combine);",
  "  external void forEach(void Function(dynamic) action);",
  "  external Iterable map(dynamic Function(dynamic) toElement);",
  "  external bool contains(Object element);",
  "  external List toList();",
  "\x7d",
  "",
  "abstract class List implements Iterable \x7b",
  "  external dynamic operator [](int index);",
  "  external void operator []=(int index, dynamic value);",
  "  external void add(dynamic value);",
  "  external bool remove(Object value);",
  "\x7d",
  "",
  "abstract class Map \x7b",
  "  external dynamic operator [](Object key);",
  "  external void operator []=(dynamic key, dynamic value);",
  "  external bool containsKey(Object key);",
  "\x7d",
  "",
  "class Uri \x7b",
  "  external static Uri parse(String uri);",
  "  external String get path;",
  "\x7d",
  "",
  "external void print(Object object);",
  "",
  "external bool identical(Object a, Object b);",
  "",
  "class _Override \x7b",
  "  const _Override();",
  "\x7d",
  "",
  "const _Override override = _Override();"]

def convert : Source := .ofLines "dart:convert" [
  "// dart:convert as seen by the check.",
  "",
  "class JsonCodec \x7b",
  "  const JsonCodec();",
  "  external dynamic decode(String source);",
  "  external String encode(Object value);",
  "\x7d",
  "",
  "const JsonCodec json = JsonCodec();",
  "",
  "external dynamic jsonDecode(String source);",
  "",
  "external String jsonEncode(Object value);"]

def throwable : Source := .ofLines "package:throwable/throwable.dart" [
  "// package:throwable/throwable.dart",
  "//",
  "// Declares the exceptions or errors a function, method, accessor or",
  "// constructor can throw:",
  "//",
  "//   @Throws([NetworkException])",
  "//   void fetchData() \x7b ... \x7d",
  "",
  "class Throws \x7b",
  "  final List types;",
  "  const Throws(this.types);",
  "\x7d"]

def libraries : List Source := [core, convert, throwable]

/-- The bundled libraries that none of the given sources takes the place of. -/
def besides (given : List Source) : List Source :=
  libraries.filter fun l => !given.any fun s => s.uri = l.uri

end Bundled

end CheckedThrows
