import Compression.Algorithm
import Compression.Base64
import Compression.BitReader
import Compression.BitWriter
import Compression.Blank
import Compression.BlockImage
import Compression.BlockTransform
import Compression.Bytes
import Compression.CodeTable
import Compression.CommandLine
import Compression.Config
import Compression.ConfigFile
import Compression.Dispatch
import Compression.Document
import Compression.DocumentError
import Compression.EntryTable
import Compression.ErrorCode
import Compression.Failure
import Compression.FileError
import Compression.FileStore
import Compression.FloatText
import Compression.FloatValue
import Compression.Histogram
import Compression.Host
import Compression.Huffman
import Compression.HuffmanHeader
import Compression.LowerCase
import Compression.Lzss
import Compression.LzssParams
import Compression.LzssSearch
import Compression.Main
import Compression.Medium
import Compression.MergeRule
import Compression.Naming
import Compression.Netpbm
import Compression.NumberSet
import Compression.NumberText
import Compression.Numerals
import Compression.Plane
import Compression.PrefixArena
import Compression.PrefixTree
import Compression.Printable
import Compression.Proofs.ArenaTree
import Compression.Proofs.BitPacking
import Compression.Proofs.FieldBytes
import Compression.Proofs.HeaderEntries
import Compression.Proofs.HuffmanDecoding
import Compression.Proofs.HuffmanRoundTrip
import Compression.Proofs.LongestMatch
import Compression.Proofs.LzssRoundTrip
import Compression.Proofs.MatchSearch
import Compression.Proofs.PlantedTree
import Compression.Proofs.TableWords
import Compression.Proofs.TokenStream
import Compression.Proofs.TreeWords
import Compression.Quoted
import Compression.Settings
import Compression.Text
import Compression.TextBlock
import Compression.Timestamp
import Compression.Utf8
import Compression.Value
import Compression.WordEnd
import Compression.YamlNode
import Compression.YamlReader
import Compression.YamlScalar
import Compression.YamlScan
import Compression.YamlTag
import Compression.YamlToken
import Compression.YamlValue
import Compression.Proofs.CodeLengths
import Compression.Proofs.StreamItems
import Compression.Proofs.MinimalCode
import Compression.Proofs.PathWalks
import Compression.Proofs.PathEnds
import Compression.Proofs.StoreEffects
import Compression.Proofs.WrittenFiles
import Compression.Proofs.MediumSteps
import Compression.Proofs.CallRuns
import Compression.Proofs.CallFrame
import Compression.Proofs.PathNames
import Compression.Proofs.CallRoundTrip
import Compression.Proofs.CutCodes
import Compression.Proofs.CutStream
import Compression.Proofs.CallAnswers
import Compression.Proofs.DecodeFaults
import Compression.Proofs.EncodeFaults
import Compression.Proofs.CompleteCode
import Compression.Proofs.NetpbmHeader
import Compression.Proofs.WriterHistory
import Compression.Proofs.BlockFile
import Compression.Proofs.StoreAgreement
import Compression.Proofs.CallsCommute
import Compression.Proofs.LeastRoots
import Compression.Proofs.MergeHistory
import Compression.Proofs.MergedArena
import Compression.Proofs.ArenaPaths
import Compression.Proofs.WordBound
import Compression.Proofs.WordOrder
import Compression.Proofs.HeaderCodec
import Compression.Proofs.StreamGroups
import Compression.Proofs.AppendedText
import Compression.Proofs.PackedSize
import Compression.Proofs.StreamLength
import Compression.Proofs.NetpbmGrammar
import Compression.Proofs.NetpbmRoundTrip
import Compression.Proofs.BlockPartition
import Compression.Proofs.IndependentBlocks
import Compression.Proofs.RealTransform
import Compression.Proofs.StoredSteps
import Compression.Proofs.Distortion
import Compression.Proofs.SelectorParsing
import Compression.Proofs.FloatRounding
import Compression.Proofs.FloatArithmetic
import Compression.Proofs.ConstantTerm
import Compression.Proofs.ExceptSteps
import Compression.Proofs.FileNames
import Compression.Proofs.DefaultNames
import Compression.Proofs.ConfigChecks
import Compression.Proofs.ConfigAcceptance
import Compression.Proofs.ConfigFaults
import Compression.Proofs.ReaderHistory
import Compression.Proofs.CodeWalk
import Compression.Proofs.ArgumentGroups
import Compression.Proofs.LogLines
import Compression.Proofs.CommandStages
import Compression.Proofs.PathWalks
