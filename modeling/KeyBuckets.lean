import KeyBuckets.Bucket
import KeyBuckets.CommandLine.Arguments
import KeyBuckets.CommandLine.Report
import KeyBuckets.Distribution
import KeyBuckets.Error
import KeyBuckets.Fingerprint
import KeyBuckets.ImportCounts
import KeyBuckets.Key
import KeyBuckets.Keyring
import KeyBuckets.Listing
import KeyBuckets.Machine.Basic
import KeyBuckets.Machine.FileTree
import KeyBuckets.Machine.Program
import KeyBuckets.Main
import KeyBuckets.Memory.Shelf
import KeyBuckets.Memory.World
import KeyBuckets.Outcome
import KeyBuckets.Parts
import KeyBuckets.Plan
import KeyBuckets.Proofs.Answers
import KeyBuckets.Proofs.ArgumentVectors
import KeyBuckets.Proofs.Balance
import KeyBuckets.Proofs.CanonicalForm
import KeyBuckets.Proofs.CleanCuts
import KeyBuckets.Proofs.Commands
import KeyBuckets.Proofs.Contents
import KeyBuckets.Proofs.Course
import KeyBuckets.Proofs.Decoding
import KeyBuckets.Proofs.Dialogue
import KeyBuckets.Proofs.Directories
import KeyBuckets.Proofs.Exports
import KeyBuckets.Proofs.Growth
import KeyBuckets.Proofs.Handover
import KeyBuckets.Proofs.Homes
import KeyBuckets.Proofs.Imports
import KeyBuckets.Proofs.Independence
import KeyBuckets.Proofs.Lines
import KeyBuckets.Proofs.Merging
import KeyBuckets.Proofs.MissingFiles
import KeyBuckets.Proofs.Numbering
import KeyBuckets.Proofs.Overflows
import KeyBuckets.Proofs.Placement
import KeyBuckets.Proofs.Preparation
import KeyBuckets.Proofs.Repetition
import KeyBuckets.Proofs.Requests
import KeyBuckets.Proofs.RoundTrip
import KeyBuckets.Proofs.Secrecy
import KeyBuckets.Proofs.SecretHalves
import KeyBuckets.Proofs.Segments
import KeyBuckets.Proofs.Spellings
import KeyBuckets.Proofs.StatusLines
import KeyBuckets.Proofs.Stranded
import KeyBuckets.Proofs.WholeListings
import KeyBuckets.Text.Blank
import KeyBuckets.Text.Hex
import KeyBuckets.Text.Numeral
import KeyBuckets.Text.Pieces
import KeyBuckets.Text.Search
import KeyBuckets.Text.Uppercase
import KeyBuckets.Text.Utf8
import KeyBuckets.Trace
import KeyBuckets.Vault
